import ScriptRunner.Expansion
import ScriptRunner.Quoting
import ScriptRunner.Session.Directory

/-!
# ScriptRunner.Session.Substitution

Running the statements of a command substitution and keeping what they print.

The statements run one after the other in a subshell of their own. It starts with the
directory and the environment of the session and without variables, and nothing of it
comes back but the output. Nothing in it can fail: what goes wrong is a warning, and the
next statement runs. The errors that a program prints are a warning too.

A substitution inside a substitution runs in a subshell of the subshell. `captureWithin`
counts how deep that may go; statements are never deeper than `Statement.nestingAll` says.
-/

namespace ScriptRunner

/-- A session inside a substitution. -/
structure Subshell where
  cwd : Path
  env : Env
  vars : Env
  deriving DecidableEq

namespace Subshell

variable {σ : Type}

/-- The subshell at the start of a substitution. -/
def start (cwd : Path) (env : Env) : Subshell := ⟨cwd, env, Bindings.empty⟩

/-- The subshell after bindings; all of them are seen by programs. -/
def assign (s : Subshell) (delta : Env) : Subshell :=
  ⟨s.cwd, s.env.overlay delta, s.vars.overlay delta⟩

/-- The subshell in another directory. -/
def moveTo (s : Subshell) (cwd : Path) : Subshell := ⟨cwd, s.env, s.vars⟩

/-- What to say about the errors that a program printed. -/
def errorsWarning? (program : String) (errors : Bytes) : Option String :=
  let text := (Utf8.decodeLossy errors).toList
  if (Text.trim text).isEmpty then none
  else
    some ("command substitution \x60" ++ program ++ "\x60: " ++ String.ofList (Text.trimEnd text))

/-- What to say about a program that could not be started. -/
def launchWarning (argv : List String) (fault : LaunchFault) : String :=
  "command substitution: failed to run " ++ joinWords argv ++ ": " ++ fault.message

/-- What to say about a directory that could not be changed. -/
def directoryWarning (fault : BuiltinFault) : String :=
  "command substitution: " ++ fault.message

/-- Runs a program and keeps what it prints. -/
def printed (launcher : Launcher σ) (request : Invocation) : Effect σ String := do
  Effect.notify (.substitute request)
  match ← launcher.capture request with
  | .ok result =>
    match errorsWarning? request.program result.errors with
    | some text => Effect.warn text
    | none => pure ()
    pure (Utf8.decodeLossy result.output)
  | .error fault =>
    Effect.warn (launchWarning request.argv fault)
    pure ""

/-- Runs one statement, whose own substitutions `inner` runs in the subshell as it is. -/
def runStatement (launcher : Launcher σ) (inner : Path → Env → Expansion.Oracle σ)
    (s : Subshell) (statement : Statement) : Effect σ (Subshell × String) := do
  let resolved ← Expansion.expand (inner s.cwd s.env) s.vars s.env statement
  match resolved.program with
  | none => pure (s.assign resolved.env, "")
  | some program =>
    if program = changeDirectoryName then
      match changeDirectory s.cwd resolved.args s.env with
      | .ok cwd => pure (s.moveTo cwd, "")
      | .error fault =>
        Effect.warn (directoryWarning fault)
        pure (s, "")
    else
      let output ← printed launcher ⟨program, resolved.args, s.env.overlay resolved.env, s.cwd⟩
      pure (s, output)

/-- Runs statements from left to right and keeps what they print. -/
def runEach (launcher : Launcher σ) (inner : Path → Env → Expansion.Oracle σ) (s : Subshell) :
    List Statement → Effect σ String
  | [] => pure ""
  | statement :: rest => do
    let first ← runStatement launcher inner s statement
    let output ← runEach launcher inner first.1 rest
    pure (first.2 ++ output)

/-- What statements print when substitutions may stand at most `depth` deep in them. -/
def captureWithin (launcher : Launcher σ) : Nat → Path → Env → Expansion.Oracle σ
  | 0, _, _ => fun _ => pure ""
  | depth + 1, cwd, env => runEach launcher (captureWithin launcher depth) (start cwd env)

/-- What statements print when they run in `cwd` with the environment `env`. -/
def capture (launcher : Launcher σ) (cwd : Path) (env : Env) : Expansion.Oracle σ :=
  fun statements =>
    captureWithin launcher (Statement.nestingAll statements + 1) cwd env statements

end Subshell

end ScriptRunner

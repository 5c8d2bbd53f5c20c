import ScriptRunner.Command.EntryText
import ScriptRunner.Session.State
import ScriptRunner.Session.Substitution

/-!
# ScriptRunner.Session.Basic

Sessions, and how a session runs the entries of a script.

An entry that cannot be read, or holds several statements, fails without a trace. An entry
without a program binds names in the session. Every other entry is a command: the session
reports the command line, hands the command to `cd`, to a builtin or to the launcher, and
reports how it ended. A failed command ends the script unless its entry says otherwise.

The environment's `PWD` is the session's directory from the first entry on.
-/

namespace ScriptRunner

/-- A session: where it is, what it remembers, and its terminal. -/
structure Session where
  cwd : Path
  state : SessionState
  term : Terminal
  deriving DecidableEq

/-- What a session runs commands with. -/
structure Tools (σ : Type) where
  launcher : Launcher σ
  builtins : List (Builtin σ)

namespace Tools

variable {σ : Type}

/-- One more builtin, in place of any other of its name. -/
def install (t : Tools σ) (b : Builtin σ) : Tools σ :=
  ⟨t.launcher, t.builtins.filter (fun other => other.name != b.name) ++ [b]⟩

/-- The builtin of a name. -/
def builtin? (t : Tools σ) (name : String) : Option (Builtin σ) :=
  t.builtins.find? (fun b => b.name == name)

end Tools

namespace Session

variable {σ : Type}

/-- A new session in the directory of this one. Without a state of its own it starts with
the environment alone. -/
def fork (s : Session) (state : Option SessionState) : Session :=
  ⟨s.cwd, state.getD (SessionState.ofEnv s.state.env), s.term⟩

/-- The session with the state in place of its own. -/
def withState (s : Session) (state : SessionState) : Session := ⟨s.cwd, state, s.term⟩

/-- The session with `PWD` in the environment. -/
def withPwd (s : Session) : Session :=
  s.withState { s.state with env := s.state.env.bind "PWD" s.cwd }

/-- What the session's substitutions print. -/
def oracle (launcher : Launcher σ) (s : Session) : Expansion.Oracle σ :=
  Subshell.capture launcher s.cwd s.state.env

/-! ## Reports -/

/-- What is shown after a command that succeeded. -/
def successMarker : String := "\u2756"

/-- How a command ended, for the end of its output. -/
def endMessage (e : Exit) : String :=
  match e.terminatedBy with
  | some name => "Signal " ++ name
  | none => if e.code = 0 then successMarker else "\nExit " ++ toString e.code ++ "."

/-- What is shown when a command line is about to run. -/
def startMessage (command : String) : String := "$ " ++ command

/-- What is shown when a script goes on after a failed command. -/
def carryOnMessage : String := "(continuing anyway)"

/-- Reports a message. -/
def say (text : String) : Effect σ Unit := Effect.report (.message text)

/-- Whether the failure is that of a command that did run. -/
def ran : Failure → Bool
  | .commandFailed _ => true
  | _ => false

/-- Reports a failure: in words, unless the command did run, and how it counts. -/
def sayFailure (f : Failure) : Effect σ Unit := do
  if ran f then pure () else say f.message
  say (endMessage f.exit)

/-- What a substitution that was not understood is reported as. -/
def ignoredWarning (i : IgnoredSubstitution) : String :=
  "ignoring command substitution $(" ++ i.text ++ "): " ++ i.reason.report

/-- Warns about the substitutions that were not understood. -/
def warnIgnored : List IgnoredSubstitution → Effect σ Unit
  | [] => pure ()
  | i :: rest => do
    Effect.warn (ignoredWarning i)
    warnIgnored rest

/-! ## Commands -/

/-- The command `cd`. -/
def cd (s : Session) (args : List String) : Session × Except Failure Exit :=
  match changeDirectory s.cwd args s.state.env with
  | .ok cwd => (⟨cwd, s.state, s.term⟩, .ok Exit.success)
  | .error fault => (s, .error (.builtin fault))

/-- Runs `name` as a builtin, if it is one. -/
def runBuiltin? (tools : Tools σ) (s : Session) (name : String) (args : List String) :
    Option (Effect σ (Session × Except Failure Exit)) :=
  if name = changeDirectoryName then some (pure (s.cd args))
  else
    match tools.builtin? name with
    | some b => some (do let result ← b.invoke args; pure (s, result))
    | none => none

/-- The program that a command asks for. -/
def launchOf (s : Session) (program : String) (resolved : Resolved) (input : Option String) :
    Launch :=
  { program := program
    args := resolved.args
    env := s.state.env.overlay resolved.env
    cwd := s.cwd
    term := s.term
    input := input }

/-- Runs a command: as a builtin if it is one, else as a program. -/
def dispatch (tools : Tools σ) (s : Session) (program : String) (resolved : Resolved)
    (input : Option String) : Effect σ (Session × Except Failure Exit) :=
  match s.runBuiltin? tools program resolved.args with
  | some effect => effect
  | none => do
    let request := s.launchOf program resolved input
    Effect.notify (.launch request)
    let result ← tools.launcher.start request
    pure (s, result)

/-- Reports how a command ended, and decides what that means for its script. -/
def conclude (policy : FailPolicy) : Except Failure Exit → Effect σ (Except Failure Exit)
  | .ok exit => do
    say (endMessage exit)
    pure (.ok exit)
  | .error failure => do
    sayFailure failure
    match policy with
    | .carryOn =>
      say carryOnMessage
      pure (.ok failure.exit)
    | .stop => pure (.error failure)

/-- Runs a command, with its reports before and after. -/
def runCommand (tools : Tools σ) (s : Session) (entry : Entry) (text : EntryText)
    (program : String) (resolved : Resolved) : Effect σ (Session × Except Failure Exit) := do
  say (startMessage text.command)
  let ended ← s.dispatch tools program resolved text.input
  let result ← conclude entry.failPolicy ended.2
  pure (ended.1, result)

/-- Runs the statement of an entry. -/
def runStatement (tools : Tools σ) (s : Session) (entry : Entry) (text : EntryText)
    (statement : Statement) : Effect σ (Session × Except Failure Exit) := do
  let resolved ←
    Expansion.expand (s.oracle tools.launcher) s.state.vars s.state.env statement
  match resolved.program with
  | none => pure (s.withState (s.state.assign resolved.env entry.precedence), .ok Exit.success)
  | some program => s.runCommand tools entry text program resolved

/-- Runs one entry. -/
def run (tools : Tools σ) (session : Session) (entry : Entry) :
    Effect σ (Session × Except Failure Exit) := do
  let s := session.withPwd
  let text := EntryText.ofLines entry.lines
  let reading := readStatements text.command
  warnIgnored reading.ignored
  match reading.result with
  | .error (.refused reason) => pure (s, .error (.unreadable reason))
  | .error .stalled => pure (s, .error .stalled)
  | .ok [] => pure (s, .ok Exit.success)
  | .ok [statement] => s.runStatement tools entry text statement
  | .ok _ => pure (s, .error (.severalStatements text.command))

/-- Runs entries in order, up to the first that fails. -/
def runScript (tools : Tools σ) (s : Session) : Script → Effect σ (Session × Except Failure Unit)
  | [] => pure (s, .ok ())
  | entry :: rest => do
    let first ← s.run tools entry
    match first.2 with
    | .ok _ => runScript tools first.1 rest
    | .error failure => pure (first.1, .error failure)

end Session

end ScriptRunner

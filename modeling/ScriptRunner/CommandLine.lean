import ScriptRunner.Batch.Report
import ScriptRunner.Settings

/-!
# ScriptRunner.CommandLine

The command line of the program: its arguments, a whole run, and what a run prints.

The arguments are the registry's file, then selectors; options may stand anywhere before
`--`. The exit code is 0 if all selected actions ran and succeeded, 1 if one of them
failed, and 2 if the run came to no result.

Whether the output goes to a terminal decides whether scripts have `run-actions`. It is a fact
about the outside, and so a parameter here.

Left out are the text of the help, what a complaint says around the fault it is about, lines of the
log below warnings, and the times that reports about actions carry: `shortTime` stands for all of
them.
-/

namespace ScriptRunner

namespace CommandLine

/-! ## Arguments -/

/-- What the arguments ask for. -/
structure Arguments where
  file : Path
  selectors : List String
  directory : Option Path
  clean : Bool
  dryRun : Bool
  verbose : Nat
  deriving DecidableEq, Repr

/-- Why arguments are refused. -/
inductive UsageFault
  | unknownOption (text : String)
  | unexpectedValue (option : String)
  | missingValue (option : String)
  | repeated (option : String)
  | missingFile
  | emptyFile
  deriving DecidableEq, Repr

/-- A usage fault in words. -/
def UsageFault.message : UsageFault → String
  | unknownOption text => "unexpected argument '" ++ text ++ "' found"
  | unexpectedValue option => "unexpected value for '" ++ option ++ "' found"
  | missingValue option => "a value is required for '" ++ option ++ "' but none was supplied"
  | repeated option => "the argument '" ++ option ++ "' cannot be used multiple times"
  | missingFile => "the registry file was not provided"
  | emptyFile => "a value is required for the registry file but none was supplied"

/-- The options and the operands that have been read. -/
structure Parsed where
  operands : List String
  directory : Option Path
  clean : Bool
  dryRun : Bool
  verbose : Nat

/-- With the directory set, which must not be empty and not be set before. -/
def Parsed.setDirectory (p : Parsed) (value : String) : Except UsageFault Parsed :=
  if value.isEmpty then .error (.missingValue "--dir")
  else if p.directory.isSome then .error (.repeated "--dir")
  else .ok { p with directory := some value }

/-- With an option without a value set. -/
def Parsed.setOption (p : Parsed) (name : String) : Except UsageFault Parsed :=
  match name with
  | "--clean" => if p.clean then .error (.repeated name) else .ok { p with clean := true }
  | "--dry-run" => if p.dryRun then .error (.repeated name) else .ok { p with dryRun := true }
  | "--verbose" => .ok { p with verbose := p.verbose + 1 }
  | "--dir" => .error (.missingValue name)
  | _ => .error (.unknownOption name)

/-- With the short options of one argument set. -/
def Parsed.setLetters (p : Parsed) (arg : String) : List Char → Except UsageFault Parsed
  | [] => .ok p
  | c :: rest =>
    if c = 'v' then { p with verbose := p.verbose + 1 }.setLetters arg rest
    else .error (.unknownOption arg)

/-- Whether an argument is an option by its form. A dash alone is none. -/
def isOption (arg : String) : Bool := arg.startsWith "-" && arg != "-"

/-- An argument that is an option by its form, with a value in it or without. -/
def Parsed.readOption (p : Parsed) (arg : String) : Except UsageFault Parsed :=
  if arg.startsWith "--" then
    let name := String.ofList (arg.toList.takeWhile (· != '='))
    if arg.toList.contains '=' then
      let value := String.ofList ((arg.toList.dropWhile (· != '=')).drop 1)
      if name = "--dir" then p.setDirectory value
      else
        match p.setOption name with
        | .error fault => .error fault
        | .ok _ => .error (.unexpectedValue name)
    else p.setOption name
  else p.setLetters arg (arg.toList.drop 1)

/-- Options and operands from left to right. -/
def Parsed.read (p : Parsed) : List String → Except UsageFault Parsed
  | [] => .ok p
  | "--" :: rest => .ok { p with operands := p.operands ++ rest }
  | "--dir" :: value :: rest =>
    if isOption value then .error (.missingValue "--dir")
    else do (← p.setDirectory value).read rest
  | arg :: rest =>
    if isOption arg then do (← p.readOption arg).read rest
    else { p with operands := p.operands ++ [arg] }.read rest

/-- The arguments of the program. -/
def Arguments.parse (args : List String) : Except UsageFault Arguments := do
  let p ← Parsed.read ⟨[], none, false, false, 0⟩ args
  match p.operands with
  | [] => .error .missingFile
  | file :: selectors =>
    if file.isEmpty then .error .emptyFile
    else .ok ⟨file, selectors, p.directory, p.clean, p.dryRun, p.verbose⟩

/-! ## A run -/

/-- The configuration of the batch of a run. Its scripts have `run-actions` if the output goes
to a terminal. -/
def configOf (onTerminal : Bool) (settings : Settings) (env : Env) (args : Arguments) :
    BatchConfig :=
  let config := settings.batchConfig env
  { config with
    directory := args.directory.getD config.directory
    clean := config.clean || args.clean
    dryRun := args.dryRun
    interactive := onTerminal }

/-- Loads the registry and runs the selected actions, and what is nested in them up to `depth`
levels down. The result says whether all of the selected ones ran and succeeded. -/
def runBatch {σ : Type} (depth : Nat) (b : Batch σ) (args : Arguments) :
    Effect (BatchWorld σ) (Except Failure Bool) := do
  match ← b.loadFrom args.file with
  | .error failure => pure (.error failure)
  | .ok () =>
    match ← Batch.parseActions args.selectors with
    | .error failure => pure (.error failure)
    | .ok actions =>
      match ← b.runActions actions depth with
      | .error failure => pure (.error failure)
      | .ok outcomes =>
        pure (.ok (outcomes.length == actions.length && outcomes.all Outcome.isOk))

/-- The exit code of a run. -/
def exitCode : Except Failure Bool → Nat
  | .ok true => 0
  | .ok false => 1
  | .error _ => 2

/-! ## What a run prints -/

/-- The time that a report about an action takes it to have needed, in nanoseconds: not
worth showing, but not nothing either. -/
def shortTime : Nat := 1

/-- The output with one more notice shown. Lines about actions stand by themselves; they do
not count as messages of a session. -/
def showNotice (threshold : Nat) (p : Pipe) : Notice → Pipe
  | .shell event => p.write event
  | .batch event =>
    match event.line? shortTime threshold with
    | some line => { p with written := p.written ++ Utf8.encode ("\n" ++ line ++ "\n") }
    | none => p
  | _ => p

/-- What is printed for notices, in their order. -/
def transcript (threshold : Nat) (notices : List Notice) : Bytes :=
  (notices.foldl (showNotice threshold) Pipe.empty).written

/-- What a run leaves: its exit code, what it printed, and what there is to complain
about. -/
structure Report where
  code : Nat
  output : Bytes
  complaint : Option String
  deriving DecidableEq

/-- The program: its arguments and its environment, in a world. -/
def program {σ : Type} (depth : Nat) (onTerminal : Bool) (host : Host σ) (env : Env)
    (args : List String) : Effect σ Report :=
  match Arguments.parse args with
  | .error fault => pure ⟨2, [], some fault.message⟩
  | .ok args => do
    let settings ← Settings.load host env
    Settings.openLog host (settings.logPath? env)
    let config := configOf onTerminal settings env args
    let b : Batch σ := ⟨config, env, host⟩
    let done ← b.fromStart (runBatch depth b args)
    let complaint :=
      match done.value with
      | .ok _ => none
      | .error failure => some failure.message
    pure ⟨exitCode done.value, transcript (settings.reportThreshold * 1000000) done.notices,
      complaint⟩

/-- The program, where its output goes to a file or to another program. -/
def run {σ : Type} (host : Host σ) (env : Env) (args : List String) : Effect σ Report :=
  program Batch.nestingDepth false host env args

end CommandLine

end ScriptRunner

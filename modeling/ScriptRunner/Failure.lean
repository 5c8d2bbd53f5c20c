import ScriptRunner.Command.SyntaxError
import ScriptRunner.Exit
import ScriptRunner.Host.Errno

/-!
# ScriptRunner.Failure

Everything that can go wrong while a registry is loaded, actions are selected and
scripts run. Each cause is a constructor; the wording is in the `message` functions
and nowhere else, and `Failure.exit` gives every failure the exit it counts as.
-/

namespace ScriptRunner

/-- What is wrong with an action selector. -/
inductive SelectorFault
  | empty
  /-- More than one `..`. -/
  | severalRanges
  /-- An end of a range that is no action. -/
  | unknownAction (name : String)
  /-- A refusal in other words. -/
  | other (text : String)
  deriving DecidableEq, Repr

/-- What is wrong with a selector, in words. -/
def SelectorFault.message : SelectorFault → String
  | empty => "empty selector"
  | severalRanges => "more than one '..'"
  | unknownAction name => "unknown action '" ++ name ++ "'"
  | other text => text

/-- Why a builtin command failed. -/
inductive BuiltinFault
  /-- The number of arguments that `cd` was given. -/
  | directoryCount (given : Nat)
  /-- An action that `run-actions` ran has failed. -/
  | actionFailed (name : String)
  /-- Actions are nested deeper in one another than the run is followed. -/
  | nestedTooDeep
  /-- A refusal by an extension, in its own words. -/
  | other (text : String)
  deriving DecidableEq, Repr

/-- The name of the builtin that runs actions. -/
def runActionsName : String := "run-actions"

/-- Why a builtin command failed, in words. -/
def BuiltinFault.message : BuiltinFault → String
  | directoryCount given => "cd: expected exactly one argument, got " ++ toString given
  | actionFailed name => runActionsName ++ ": '" ++ name ++ "' failed"
  | nestedTooDeep => runActionsName ++ ": actions are nested too deep"
  | other text => text

/-- Why a program could not be started. -/
inductive LaunchFault
  /-- Nothing of that name is where programs are searched. -/
  | commandNotFound
  /-- The operating system refused. -/
  | refused (reason : Errno)
  /-- The file is there and cannot be run. -/
  | notExecutable (file : String)
  /-- What is there is a directory. -/
  | isDirectory (file : String)
  /-- Nothing is there. -/
  | absent (file : String)
  /-- None of the places searched has a program of that name; what they have instead,
  and the search path, if there is one. -/
  | noCandidate (program : String) (found : List LaunchFault) (searched : Option String)
  /-- An argument, or a part of the environment, contains a NUL character. -/
  | nulCharacter
  /-- A refusal in other words. -/
  | other (text : String)
  deriving Repr

namespace LaunchFault

/-- What a place of the search path has instead of a program, in words. -/
def finding : LaunchFault → String
  | isDirectory file => file ++ " exists but is a directory"
  | notExecutable file => file ++ " exists but is not executable"
  | _ => ""

/-- A character inside double quotes: one that would be mistaken there, or not be seen, has a
backslash. -/
def quotedChar (c : Char) : String :=
  if c = '"' then "\\\""
  else if c = '\\' then "\\\\"
  else if c = '\n' then "\\n"
  else if c = '\r' then "\\r"
  else if c = '\t' then "\\t"
  else if c.toNat < 32 ∨ c.toNat = 127 then
    "\\u\x7b" ++ String.ofList (Nat.toDigits 16 c.toNat) ++ "\x7d"
  else c.toString

/-- A text in double quotes. -/
def inQuotes (text : String) : String :=
  "\"" ++ String.join (text.toList.map quotedChar) ++ "\""

/-- Why a program could not be started, in words. -/
def message : LaunchFault → String
  | commandNotFound => "command not found"
  | refused reason => reason.message
  | notExecutable file => "Unable to spawn " ++ file ++ " because it is not executable"
  | isDirectory file => "Unable to spawn " ++ file ++ " because it is a directory"
  | absent file => "Unable to spawn " ++ file ++ " because it does not exist"
  | noCandidate program found searched =>
    "Unable to spawn " ++ program ++ " because:\n" ++
      ".\n".intercalate (found.map finding ++
        [match searched with
          | some path => "No viable candidates found in PATH " ++ inQuotes path
          | none => "Unable to resolve the PATH"])
  | nulCharacter => "nul byte found in provided data"
  | other text => text

end LaunchFault

/-- Why a file or directory could not be read, created or removed. -/
inductive FileFault
  /-- The operating system refused. -/
  | refused (reason : Errno)
  /-- The bytes of the file are no text. -/
  | notText
  /-- The name of the file contains a NUL character. -/
  | nulInName
  /-- A refusal in other words. -/
  | other (text : String)
  deriving DecidableEq, Repr

/-- Why a file could not be used, in words. -/
def FileFault.message : FileFault → String
  | refused reason => reason.message
  | notText => "stream did not contain valid UTF-8"
  | nulInName => "file name contained an unexpected NUL byte"
  | other text => text

/-- The formats of registry files. -/
inductive DocumentFormat
  | json
  | yaml
  | toml
  deriving DecidableEq, Repr

/-- The name of a format. -/
def DocumentFormat.name : DocumentFormat → String
  | json => "JSON"
  | yaml => "YAML"
  | toml => "TOML"

/-- Everything that can go wrong. -/
inductive Failure
  /-- The text of a command is refused. -/
  | unreadable (reason : SyntaxError)
  /-- The text of a command holds a blank that stops all reading. -/
  | stalled
  | badSelector (selector : String) (reason : SelectorFault)
  /-- A script entry holds more than one statement. -/
  | severalStatements (command : String)
  | alreadyLoaded
  | nothingLoaded
  /-- The action is running already. -/
  | actionRunning (name : String)
  /-- The command ran and did not succeed. -/
  | commandFailed (exit : Exit)
  | builtin (reason : BuiltinFault)
  /-- The program could not be started. `missing` says whether there is no such program
  at all. -/
  | launch (program : String) (reason : LaunchFault) (missing : Bool)
  | file (reason : FileFault)
  /-- The text of a registry is not of its format, or does not describe a registry. What the
  reader of the format has to say about it is left out. -/
  | badDocument (format : DocumentFormat)
  deriving Repr

namespace Failure

/-- The failure in words. Those about a bad document end at the format: the words in which its
reader goes on are its own, and are left out. -/
def message : Failure → String
  | unreadable reason => reason.report
  | stalled => "parse error: a blank of this kind separates no words"
  | badSelector selector reason =>
    "invalid action selector '" ++ selector ++ "': " ++ reason.message
  | severalStatements command =>
    "multiple statements in one script entry are not supported: " ++ command
  | alreadyLoaded => "scripts are already loaded"
  | nothingLoaded => "no scripts loaded"
  | actionRunning name => "action '" ++ name ++ "' is already running"
  | commandFailed exit => exit.message
  | builtin reason => reason.message
  | launch program reason _ => program ++ ": " ++ reason.message
  | file reason => "I/O error: " ++ reason.message
  | badDocument format => "invalid " ++ format.name ++ " registry"

/-- The exit that a failure counts as: that of the command where it ran, 127 for a
missing program, 126 for one that could not be started, and 1 for everything else. -/
def exit : Failure → Exit
  | commandFailed exit => exit
  | launch _ _ missing => Exit.ofCode (if missing then 127 else 126)
  | _ => Exit.ofCode 1

end Failure

/-- The exit itself where the command succeeded, and the failure of the command
otherwise. -/
def Exit.toResult (e : Exit) : Except Failure Exit :=
  if e.isSuccess then .ok e else .error (.commandFailed e)

end ScriptRunner

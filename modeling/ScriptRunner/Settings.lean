import ScriptRunner.Batch.Basic
import ScriptRunner.Document.Toml
import ScriptRunner.Verbosity

/-!
# ScriptRunner.Settings

Settings of the program: built-in ones, and a file of the user that replaces some of them.

The file counts as a whole or not at all: where it cannot be read, is no TOML, or has a
value of the wrong kind at a key that means something, the built-in settings hold. Other
keys mean nothing.
-/

namespace ScriptRunner

/-- The settings. -/
structure Settings where
  /-- Empty for the directory that `defaultDirectory` names. -/
  directory : String
  clean : Bool
  /-- The time in milliseconds beyond which a report about an action shows its time. -/
  reportThreshold : Nat
  term : Terminal
  logLevel : String
  /-- Empty for none. -/
  logFile : String
  deriving DecidableEq, Repr

namespace Settings

/-- The settings without a file. -/
def standard : Settings := ⟨"", false, 1000, Terminal.standard, "warn", ""⟩

/-! ## The file of the user -/

/-- What a file says about the settings. -/
structure Changes where
  directory : Option String
  clean : Option Bool
  reportThreshold : Option Nat
  termName : Option String
  cols : Option Nat
  rows : Option Nat
  logLevel : Option String
  logFile : Option String

/-- The settings with the changes of a file. -/
def apply (s : Settings) (c : Changes) : Settings where
  directory := c.directory.getD s.directory
  clean := c.clean.getD s.clean
  reportThreshold := c.reportThreshold.getD s.reportThreshold
  term := ⟨c.termName.getD s.term.name, c.cols.getD s.term.cols, c.rows.getD s.term.rows⟩
  logLevel := c.logLevel.getD s.logLevel
  logFile := c.logFile.getD s.logFile

/-- The value at a key. -/
def valueAt (key : String) : List (Document × Document) → Option Document
  | [] => none
  | (k, value) :: rest => if k.key? == some key then some value else valueAt key rest

/-- The values of a section at its keys: a map, or a list of the values of all keys. -/
def sectionValues (keys : List String) : Document → Option (List (Option Document))
  | .map entries => some (keys.map (fun key => valueAt key entries))
  | .list items => if items.length < keys.length then none else some (items.map some)
  | _ => none

/-- The values of a section of the file; one that is not there has none. -/
def sectionOf (entries : List (Document × Document)) (name : String) (keys : List String) :
    Option (List (Option Document)) :=
  match valueAt name entries with
  | none => some []
  | some d => sectionValues keys d

/-- A truth value. -/
def boolean? : Document → Option Bool
  | .scalar _ (.boolean b) => some b
  | _ => none

/-- A whole number below a limit. -/
def natural? (limit : Nat) : Document → Option Nat
  | .scalar _ (.natural n) => if n < limit then some n else none
  | _ => none

/-- The value of a section at an index, which may be missing but has to be of its kind. -/
def field? {α : Type} (read : Document → Option α) (values : List (Option Document))
    (index : Nat) : Option (Option α) :=
  match values[index]?.join with
  | none => some none
  | some d => (read d).map some

/-- The limit of the threshold. -/
def thresholdLimit : Nat := 1 <<< 64

/-- The limit of the size of a terminal. -/
def sizeLimit : Nat := 1 <<< 16

/-- What a document says about the settings. -/
def changes? : Document → Option Changes
  | .map entries => do
    let batch ← sectionOf entries "batch" ["build_dir", "clean", "report_threshold_ms"]
    let terminal ← sectionOf entries "terminal" ["name", "cols", "rows"]
    let logging ← sectionOf entries "logging" ["level", "file"]
    return {
      directory := ← field? Document.text? batch 0
      clean := ← field? boolean? batch 1
      reportThreshold := ← field? (natural? thresholdLimit) batch 2
      termName := ← field? Document.text? terminal 0
      cols := ← field? (natural? sizeLimit) terminal 1
      rows := ← field? (natural? sizeLimit) terminal 2
      logLevel := ← field? Document.text? logging 0
      logFile := ← field? Document.text? logging 1 }
  | _ => none

/-- The settings with the file of the user. -/
def withFile (s : Settings) (text : String) : Settings :=
  match (Toml.parse? text.toList).bind changes? with
  | some changes => s.apply changes
  | none => s

/-- Where the file of the user is, seen from the home directory. -/
def fileInHome : Path := ".config/mannequin/config.toml"

/-- The settings, with the file of the user if there is one. -/
def load {σ : Type} (host : Host σ) (env : Env) : Effect σ Settings :=
  match env.lookup "HOME" with
  | none => pure standard
  | some home => do
    match ← host.readText (Path.join home fileInHome) with
    | .ok text => pure (standard.withFile text)
    | .error _ => pure standard

/-! ## What follows from the settings -/

/-- The directory of a batch where nothing else is configured. -/
def defaultDirectory (env : Env) : Path :=
  Path.join ((env.lookup "TMPDIR").getD "/tmp") "mannequin"

/-- The configuration of a batch. -/
def batchConfig (s : Settings) (env : Env) : BatchConfig where
  directory :=
    if s.directory.isEmpty then defaultDirectory env
    else Path.expandTilde (env.lookup "HOME") s.directory
  clean := s.clean
  dryRun := false
  interactive := false
  term := s.term

/-- How much is logged. A level that does not exist counts as the one for warnings. -/
def verbosity (s : Settings) : Verbosity := (Verbosity.ofName? s.logLevel).getD .warn

/-- The file that is logged to. -/
def logPath? (s : Settings) (env : Env) : Option Path :=
  if s.logFile.isEmpty then none else some (Path.expandTilde (env.lookup "HOME") s.logFile)

/-- Makes the log file ready for writing, with the directories around it. A file that cannot
be made is done without. -/
def openLog {σ : Type} (host : Host σ) : Option Path → Effect σ Unit
  | none => pure ()
  | some path => do
    match Path.parent path with
    | some around => let _ ← host.makeDirectories around
    | none => pure ()
    let _ ← host.appendText path ""

end Settings

end ScriptRunner

/-!
# ScriptRunner.Exit

How a command ended: an exit code, or the name of the signal that terminated it.
-/

namespace ScriptRunner

/-- How a command ended. An empty signal name counts as none. -/
structure Exit where
  code : Int
  signal : Option String
  deriving DecidableEq, Repr, Inhabited

namespace Exit

/-- The exit of a command that did its work. -/
def success : Exit := ⟨0, none⟩

/-- The exit with this code. -/
def ofCode (code : Int) : Exit := ⟨code, none⟩

/-- The exit by this signal. -/
def ofSignal (signal : String) : Exit := ⟨1, some signal⟩

/-- The signal that terminated the command, if one did. -/
def terminatedBy (e : Exit) : Option String :=
  match e.signal with
  | some name => if name.isEmpty then none else some name
  | none => none

/-- Whether a signal terminated the command. -/
def isSignaled (e : Exit) : Bool :=
  e.terminatedBy.isSome

/-- Whether the command did its work: code zero, and no signal. -/
def isSuccess (e : Exit) : Bool :=
  !e.isSignaled && e.code == 0

/-- How the command ended, in words. -/
def message (e : Exit) : String :=
  match e.terminatedBy with
  | some name => "terminated by signal " ++ name
  | none => "exited with code " ++ toString e.code

end Exit

end ScriptRunner

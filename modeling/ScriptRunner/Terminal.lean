/-!
# ScriptRunner.Terminal

The terminal that a session presents to its programs.
-/

namespace ScriptRunner

/-- A terminal: its kind, and its size in characters. -/
structure Terminal where
  name : String
  cols : Nat
  rows : Nat
  deriving DecidableEq, Repr

namespace Terminal

/-- The terminal when nothing else is configured. -/
def standard : Terminal := ⟨"xterm-color", 80, 30⟩

instance : Inhabited Terminal := ⟨standard⟩

end Terminal

end ScriptRunner

/-!
# ScriptRunner.Batch.Event

What a batch reports about its registry and its actions. The times that such reports carry
are left out: a line about an action takes the time as an argument (`BatchEvent.line?`).
-/

namespace ScriptRunner

/-- What a batch reports. -/
inductive BatchEvent
  /-- The registry is loaded. -/
  | loaded (source : String)
  /-- An action has been given its session and is about to run. -/
  | started (name : String)
  /-- An action has run; the failure in words, if it failed. -/
  | ended (name : String) (failure : Option String)
  deriving DecidableEq, Repr

namespace BatchEvent

/-- The name of the kind of an event. -/
def kind : BatchEvent → String
  | loaded _ => "scripts:loaded"
  | started _ => "script:start"
  | ended _ _ => "script:end"

end BatchEvent

end ScriptRunner

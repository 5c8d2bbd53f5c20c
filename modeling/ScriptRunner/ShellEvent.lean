import ScriptRunner.Text.Utf8

/-!
# ScriptRunner.ShellEvent

What a session reports while it runs, and how it reads as one stream.

A message stands on a line of its own: a line break goes before it. Data goes out as it
is, except that data right after a message is set off by an empty line. Whether the last
event was a message is all that writing has to remember (`Pipe`).
-/

namespace ScriptRunner

/-- What a session reports. -/
inductive ShellEvent
  /-- Output of a program. -/
  | data (bytes : Bytes)
  /-- A line about a program: its command, how it ended, what went wrong. -/
  | message (text : String)
  deriving DecidableEq, Repr

/-- The name of the kind of an event. -/
def ShellEvent.kind : ShellEvent → String
  | data _ => "data"
  | message _ => "message"

/-- A stream that events are written to. -/
structure Pipe where
  written : Bytes
  /-- Whether the last event was a message. -/
  afterMessage : Bool
  deriving DecidableEq, Repr

namespace Pipe

/-- A line break as it is written. -/
def lineBreak : Bytes := [13, 10]

/-- The stream before the first event. -/
def empty : Pipe := ⟨[], false⟩

/-- The stream after one more event. -/
def write (p : Pipe) : ShellEvent → Pipe
  | .data bytes => ⟨p.written ++ (if p.afterMessage then lineBreak ++ [10] else []) ++ bytes, false⟩
  | .message text => ⟨p.written ++ lineBreak ++ Utf8.encode text, true⟩

/-- The stream after these events. -/
def writeAll (p : Pipe) (events : List ShellEvent) : Pipe :=
  events.foldl write p

end Pipe

end ScriptRunner

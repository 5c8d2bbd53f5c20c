import ScriptRunner.ShellEvent

/-!
# ScriptRunner.Emitter

Emitters of events and their listeners.

An emitter is a handle on a list of listeners; a copy of an emitter is another handle on
the same list. A listener is an end point (a recorder under a tag, or a pipe) or the
forwarding of every event to another list. Emitting calls the listeners of a list in the
order in which they subscribed, and a forwarding calls the whole target list at its own
place. `Network.reached` is that order.

Lists that forward to each other in a circle are not meant to be: an event is then passed
on at most as many times as there are lists. Left out are listeners that use the emitter by
which they are called, and pipes that cannot be written to.
-/

namespace ScriptRunner

/-- One that gets events. -/
inductive Listener
  /-- Records the kind of each event under its tag. -/
  | recorder (tag : String)
  /-- Writes each event to the stream of this number. -/
  | pipe (number : Nat)
  /-- Passes each event on to the listeners of another list. -/
  | forward (list : Nat)
  deriving DecidableEq, Repr

/-- Emitters, their listeners, and what the listeners have got. -/
structure Network where
  /-- The lists of listeners, each in the order of subscription. -/
  lists : List (List Listener)
  /-- The list that each emitter stands for. -/
  emitters : List Nat
  /-- The streams of the pipes. -/
  pipes : List Pipe
  /-- What the recorders have recorded, in order. -/
  records : List String
  deriving DecidableEq, Repr

namespace Network

/-- Without any emitter. -/
def empty : Network := ⟨[], [], [], []⟩

/-- The list of an emitter. -/
def listOf (n : Network) (emitter : Nat) : Nat :=
  n.emitters.getD emitter n.lists.length

/-- The listeners of a list. -/
def listeners (n : Network) (list : Nat) : List Listener :=
  n.lists.getD list []

/-- The number of listeners of an emitter. -/
def listenerCount (n : Network) (emitter : Nat) : Nat :=
  (n.listeners (n.listOf emitter)).length

/-- An emitter in words. -/
def summary (n : Network) (emitter : Nat) : String :=
  "Emitter \x7b listeners: " ++ toString (n.listenerCount emitter) ++ " \x7d"

/-- A new emitter, with a list of its own. -/
def create (n : Network) : Network :=
  { n with lists := n.lists ++ [[]], emitters := n.emitters ++ [n.lists.length] }

/-- A copy of an emitter. -/
def clone (n : Network) (emitter : Nat) : Network :=
  { n with emitters := n.emitters ++ [n.listOf emitter] }

/-- One more listener for an emitter. -/
def subscribe (n : Network) (emitter : Nat) (listener : Listener) : Network :=
  { n with lists := n.lists.modify (n.listOf emitter) (· ++ [listener]) }

/-- A new stream that gets the events of an emitter. -/
def pipe (n : Network) (emitter : Nat) : Network :=
  { n.subscribe emitter (.pipe n.pipes.length) with pipes := n.pipes ++ [Pipe.empty] }

/-- Passes every event of one emitter on to another. -/
def forward (n : Network) (source target : Nat) : Network :=
  n.subscribe source (.forward (n.listOf target))

/-- The end points that an event of a list reaches, in order. An event is passed on at
most `hops` times in a row. -/
def reachedWithin (n : Network) : Nat → Nat → List Listener
  | 0, list => (n.listeners list).filter (fun l => match l with | .forward _ => false | _ => true)
  | hops + 1, list =>
    (n.listeners list).flatMap (fun l =>
      match l with
      | .forward target => n.reachedWithin hops target
      | other => [other])

/-- The end points that an event of an emitter reaches, in order. -/
def reached (n : Network) (emitter : Nat) : List Listener :=
  n.reachedWithin n.lists.length (n.listOf emitter)

/-- One end point gets one event. -/
def deliver (event : ShellEvent) (n : Network) : Listener → Network
  | .recorder tag => { n with records := n.records ++ [tag ++ ":" ++ event.kind] }
  | .pipe number => { n with pipes := n.pipes.modify number (·.write event) }
  | .forward _ => n

/-- An emitter emits an event. -/
def emit (n : Network) (emitter : Nat) (event : ShellEvent) : Network :=
  (n.reached emitter).foldl (deliver event) n

end Network

end ScriptRunner

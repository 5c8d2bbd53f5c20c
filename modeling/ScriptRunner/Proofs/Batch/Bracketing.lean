import ScriptRunner.Proofs.Batch.Course
import ScriptRunner.Proofs.Emitter
import ScriptRunner.Proofs.Host

/-!
# ScriptRunner.Proofs.Batch.Bracketing

Nested runs are well bracketed.

Two streams come out of a run of actions: the starts and ends of actions, which a batch reports, and
the events of sessions. `openAfter` is a stack of the actions that are open after some starts and
ends; a run leaves it as it was. `Turn.play` is what becomes of the events of sessions: an action
gets an emitter of its own, whose events are passed on to the sink of the run it belongs to, and the
session of an action is the sink of the actions that it runs. A sink gets from this just what it
would get if all events were emitted on it, one after the other.

Both follow from the tree of the run (`Batch.course`), one by induction on its turns and parts for
each. They hold of a run that is followed to any depth, and of the run itself where that is its
end. Main statement: `Batch.runActions_bracketed`.
-/

namespace ScriptRunner

open Session

/-! ## Starts and ends -/

/-- The names of the actions that are open after these events, the latest first, or nothing if an
event is not the start of an action or the end of the latest that is open. -/
def openAfter : List String → List BatchEvent → Option (List String)
  | names, [] => some names
  | names, .started name :: rest => openAfter (name :: names) rest
  | last :: names, .ended name _ :: rest => if name = last then openAfter names rest else none
  | _, _ => none

mutual

/-- The run of an action closes what it opens, whatever is open around it and comes after it. -/
theorem Turn.openAfter_reports (turn : Turn) (names : List String) (rest : List BatchEvent) :
    openAfter names (batchEvents turn.reports ++ rest) = openAfter names rest := by
  cases turn with
  | ran name parts failure =>
      have hparts := Part.openAfter_reportsAll parts (name :: names)
        (.ended name failure :: rest)
      rw [Turn.reports, batchEvents_batch, batchEvents_append, List.cons_append, List.append_assoc,
        openAfter]
      rw [batchEvents_batch, batchEvents_nil, List.singleton_append, hparts, openAfter, if_pos rfl]

theorem Turn.openAfter_reportsAll (turns : List Turn) (names : List String)
    (rest : List BatchEvent) :
    openAfter names (batchEvents (Turn.reportsAll turns) ++ rest) = openAfter names rest := by
  cases turns with
  | nil => rfl
  | cons turn others =>
      rw [Turn.reportsAll, batchEvents_append, List.append_assoc, turn.openAfter_reports,
        Turn.openAfter_reportsAll others]

theorem Part.openAfter_reports (part : Part) (names : List String) (rest : List BatchEvent) :
    openAfter names (batchEvents part.reports ++ rest) = openAfter names rest := by
  cases part with
  | own event => rfl
  | call command turns answer policy =>
      have hcall : batchEvents (Part.call command turns answer policy).reports =
          batchEvents (Turn.reportsAll turns) := by
        rw [Part.reports]
        change batchEvents (_ ++ _) = _
        rw [batchEvents_append, batchEvents_shell, List.append_nil]
      rw [hcall, Turn.openAfter_reportsAll turns]

theorem Part.openAfter_reportsAll (parts : List Part) (names : List String)
    (rest : List BatchEvent) :
    openAfter names (batchEvents (Part.reportsAll parts) ++ rest) = openAfter names rest := by
  cases parts with
  | nil => rfl
  | cons part others =>
      rw [Part.reportsAll, batchEvents_append, List.append_assoc, part.openAfter_reports,
        Part.openAfter_reportsAll others]

end

/-! ## Emitters -/

mutual

/-- What emitters do in the run of an action, which gets one of its own. Its events are passed on
to `sink`. -/
def Turn.play : Turn → Nat → Network → Network
  | .ran _ parts _, sink, n => Part.playAll parts n.emitters.length (n.attach sink)

/-- What emitters do in several runs, one after the other. -/
def Turn.playAll : List Turn → Nat → Network → Network
  | [], _, n => n
  | turn :: rest, sink, n => Turn.playAll rest sink (turn.play sink n)

/-- What emitters do in a part. The session emits its events itself, and is the sink of the actions
that it runs. -/
def Part.play : Part → Nat → Network → Network
  | .own event, session, n => n.emit session event
  | .call command turns answer policy, session, n =>
    let begun := n.emit session (.message (startMessage command))
    let ran := Turn.playAll turns session begun
    ran.emitAll session (endText answer policy)

/-- What emitters do in a whole script. -/
def Part.playAll : List Part → Nat → Network → Network
  | [], _, n => n
  | part :: rest, session, n => Part.playAll rest session (part.play session n)

end

section Delivery

open Network

variable {ends : List Listener}

mutual

/-- The end points of the sink get the events of the run, in order. -/
theorem Turn.delivers_play (turn : Turn) {n : Network} {sink : Nat}
    (h : n.Feeds sink ends) :
    Delivers ends n (Notice.events turn.reports) (turn.play sink n) := by
  cases turn with
  | ran name parts failure =>
      have hevents : Notice.events (Turn.ran name parts failure).reports =
          [] ++ Notice.events (Part.reportsAll parts) := by
        rw [Turn.reports]
        change Notice.events (_ ++ _) = _
        rw [Notice.events_append]
        exact List.append_nil _
      -- Once attached, the emitter of the run feeds the end points that the sink feeds.
      rw [hevents, Turn.play]
      exact h.delivers_attach.trans (Part.delivers_playAll parts h.attached)

theorem Turn.delivers_playAll (turns : List Turn) {n : Network} {sink : Nat}
    (h : n.Feeds sink ends) :
    Delivers ends n (Notice.events (Turn.reportsAll turns)) (Turn.playAll turns sink n) := by
  cases turns with
  | nil => exact Delivers.refl h
  | cons turn rest =>
      have hfirst := turn.delivers_play h
      rw [Turn.reportsAll, Notice.events_append, Turn.playAll]
      exact hfirst.trans (Turn.delivers_playAll rest (h.extends hfirst.extended))

theorem Part.delivers_play (part : Part) {n : Network} {sink : Nat}
    (h : n.Feeds sink ends) :
    Delivers ends n (Notice.events part.reports) (part.play sink n) := by
  cases part with
  | own event => exact h.delivers [event]
  | call command turns answer policy =>
      have hevents : Notice.events (Part.call command turns answer policy).reports =
          [ShellEvent.message (startMessage command)] ++
            (Notice.events (Turn.reportsAll turns) ++ endText answer policy) := by
        rw [Part.reports]
        change _ :: Notice.events (_ ++ _) = _
        rw [Notice.events_append, Notice.events_map_shell]
        rfl
      -- The nested runs come between two reports of the session that is their sink.
      have hbegun := h.delivers [ShellEvent.message (startMessage command)]
      have hran := Turn.delivers_playAll turns (h.extends hbegun.extended)
      have hended := ((h.extends hbegun.extended).extends hran.extended).delivers
        (endText answer policy)
      rw [hevents, Part.play]
      exact hbegun.trans (hran.trans hended)

theorem Part.delivers_playAll (parts : List Part) {n : Network} {sink : Nat}
    (h : n.Feeds sink ends) :
    Delivers ends n (Notice.events (Part.reportsAll parts)) (Part.playAll parts sink n) := by
  cases parts with
  | nil => exact Delivers.refl h
  | cons part rest =>
      have hfirst := part.delivers_play h
      rw [Part.reportsAll, Notice.events_append, Part.playAll]
      exact hfirst.trans (Part.delivers_playAll rest (h.extends hfirst.extended))

end

end Delivery

/-! ## A run of actions -/

namespace Batch

variable {σ : Type} {b : Batch σ}

/-- A run of actions with all that is nested in it, to any depth, also where it comes to a failure.

What listeners get is what the turns of the run report, with the reports of nested actions between
the command line and the end of the command that ran them. Starts and ends of actions are well
nested, and nothing that was opened is left open. With emitters that pass events on from each nested
session to the one around it, and from the outermost to a sink, the sink gets every event of every
session once, in the order in which they were emitted.

The depth is only how far the run is followed: if that is to its end, so that no call is refused for
its depth, the run is the same at every greater depth. -/
theorem runActions_bracketed (h : b.host.Discreet) (depth : Nat) (actions : List String)
    (w : BatchWorld σ) :
    let done := b.runActions actions depth w
    let course := b.course depth actions w
    reports done.notices = Turn.reportsAll course ∧
    (∀ names, openAfter names (batchEvents done.notices) = some names) ∧
    (∀ (n : Network) (sink : Nat), n.Sound → sink < n.emitters.length →
      let played := Turn.playAll course sink n
      let told := n.emitAll sink (Notice.events done.notices)
      played.pipes = told.pipes ∧ played.records = told.records) ∧
    (b.fits depth actions w = true →
      ∀ deeper, depth ≤ deeper → b.runActions actions deeper w = done) := by
  intro done course
  have hreports : reports done.notices = Turn.reportsAll course :=
    reports_runActions h depth actions w
  refine ⟨hreports, fun names => ?_, fun n sink hsound hknown => ?_,
    fun hfits deeper hdeeper => runActions_deeper hfits hdeeper⟩
  · have hopen := Turn.openAfter_reportsAll course names []
    rw [← hreports, batchEvents_reports, List.append_nil] at hopen
    exact hopen
  · have hfeeds := hsound.feeds hknown
    have hplayed := Turn.delivers_playAll course hfeeds
    have hstreams := hplayed.streams
    rw [← hreports, events_reports, ← hfeeds.emitAll_eq] at hstreams
    exact ⟨hstreams.pipes, hstreams.records⟩

/-- An interactive batch on a machine without files. -/
def tangled : Batch Machine :=
  ⟨⟨"/build", false, false, true, default⟩, Bindings.empty, Machine.host⟩

/-- An action that fails where its script does not stop, and one that runs it and then asks for
itself. -/
def tangledActions : Registry :=
  Registry.ofPrimary (Section.ofDefinitions
    [("inner", [.structured (.line "nosuch") .carryOn none]),
      ("outer", [.plain (.line "run-actions inner outer")])])

/-- The batch when it has its registry. -/
def tangledWorld : BatchWorld Machine :=
  ⟨⟨⟨[]⟩, []⟩, { BatchState.start tangled.config with registry := some tangledActions }⟩

/-- An emitter with two listeners. -/
def twoListeners : Network := (Network.empty.create.pipe 0).subscribe 0 (.recorder "log")

theorem sound_twoListeners : twoListeners.Sound := by
  have hnone : ∀ list target, ¬ twoListeners.Forwards list target := by
    intro list target hforward
    match list with
    | 0 => simp [Network.Forwards, Network.listeners, twoListeners, Network.pipe,
        Network.subscribe, Network.create, Network.empty, Network.listOf] at hforward
    | list + 1 => cases hforward
  refine ⟨by decide, fun list target h => absurd h (hnone list target), fun list hcircle => ?_⟩
  obtain ⟨_, hfirst, -⟩ := Relation.TransGen.head'_iff.1 hcircle
  exact hnone _ _ hfirst

/-- The inner action runs, and then the outer one is refused, and fails. The run is followed to its
end, one level down. -/
theorem runActions_bracketed_sample :
    let done := tangled.runActions ["outer"] 1 tangledWorld
    let course := tangled.course 1 ["outer"] tangledWorld
    let played := Turn.playAll course 0 twoListeners
    tangled.host.Discreet ∧ twoListeners.Sound ∧ 0 < twoListeners.emitters.length ∧
    reports done.notices = Turn.reportsAll course ∧
    batchEvents done.notices =
      [.started "outer", .started "inner", .ended "inner" none,
        .ended "outer" (some "action 'outer' is already running")] ∧
    openAfter [] (batchEvents done.notices) = some [] ∧
    Notice.events done.notices =
      [.message "$ run-actions inner outer", .message "$ nosuch",
        .message "nosuch: command not found", .message "\nExit 127.",
        .message "(continuing anyway)", .message "action 'outer' is already running",
        .message "\nExit 1."] ∧
    played.pipes = (twoListeners.emitAll 0 (Notice.events done.notices)).pipes ∧
    played.records = List.replicate 7 "log:message" ∧
    ∀ deeper, 1 ≤ deeper → tangled.runActions ["outer"] deeper tangledWorld = done := by
  intro done course played
  have hbatch : batchEvents done.notices =
      [.started "outer", .started "inner", .ended "inner" none,
        .ended "outer" (some "action 'outer' is already running")] := by
    decide +kernel
  have hevents : Notice.events done.notices =
      [.message "$ run-actions inner outer", .message "$ nosuch",
        .message "nosuch: command not found", .message "\nExit 127.",
        .message "(continuing anyway)", .message "action 'outer' is already running",
        .message "\nExit 1."] := by
    decide +kernel
  have hdiscreet : tangled.host.Discreet := Machine.discreet_host
  have hknown : 0 < twoListeners.emitters.length := by decide
  have hfits : tangled.fits 1 ["outer"] tangledWorld = true := by decide +kernel
  obtain ⟨hreports, hopen, hplay, hdeeper⟩ :=
    runActions_bracketed hdiscreet 1 ["outer"] tangledWorld
  obtain ⟨hpipes, hrecords⟩ := hplay twoListeners 0 sound_twoListeners hknown
  have htold : (twoListeners.emitAll 0 (Notice.events done.notices)).records =
      List.replicate 7 "log:message" := by
    rw [hevents]
    decide +kernel
  exact ⟨hdiscreet, sound_twoListeners, hknown, hreports, hbatch, hopen [], hevents, hpipes,
    hrecords.trans htold, hdeeper hfits⟩

end Batch

end ScriptRunner

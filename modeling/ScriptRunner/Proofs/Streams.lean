import Mathlib.Data.Set.Card
import ScriptRunner.Proofs.Delivery

/-!
# ScriptRunner.Proofs.Streams

What streams hold.

A pipe remembers whether the last event was a message. What it writes can be said without that: each
event is written by what it is and by the event right before it (`Pipe.outputAfter`). Data comes out
the same however it is cut into pieces (`Pipe.writeAll_flatten`), because the memory of a message
goes with the first piece, which may be empty.

In a network a pipe belongs to a list. The events of a list are its own and those that are passed on
to it, once for every path there (`Network.arrivals`). A pipe follows them from the time on at which
it joins the list (`Network.received_eq_arrivals`). Where no event has two paths to one list
(`Network.Single`), the events of a list are all those that get there, in the order in which they
are emitted; and then it makes no difference to any stream whether data is emitted in one piece or
in several (`Network.sameListeners_performAll`).

Main statement: `Network.streams_written`.
-/

namespace ScriptRunner

/-! ## What a pipe writes -/

namespace ShellEvent

/-- Whether an event is a message. -/
def isMessage : ShellEvent → Bool
  | data _ => false
  | message _ => true

/-- What is written for an event, which depends on the event right before it. -/
def writtenAfter (before : Option ShellEvent) : ShellEvent → Bytes
  | data bytes => (if before.any isMessage then Pipe.lineBreak ++ [10] else []) ++ bytes
  | message text => Pipe.lineBreak ++ Utf8.encode text

/-- The ways to emit an event in parts: data in pieces, of which each may be empty, and a message
only as a whole. -/
inductive SplitsTo : ShellEvent → List ShellEvent → Prop
  | message (text : String) : SplitsTo (message text) [message text]
  | data (first : Bytes) (more : List Bytes) :
      SplitsTo (data (first ++ more.flatten)) (data first :: more.map data)

end ShellEvent

namespace Pipe

/-- What is written for events, given the event before the first of them. -/
def outputAfter (before : Option ShellEvent) : List ShellEvent → Bytes
  | [] => []
  | event :: rest => event.writtenAfter before ++ outputAfter (some event) rest

/-- Of the events before, a pipe remembers what it needs to know about the last one. -/
theorem written_writeAll (p : Pipe) {before : Option ShellEvent}
    (hbefore : p.afterMessage = before.any ShellEvent.isMessage) (events : List ShellEvent) :
    (p.writeAll events).written = p.written ++ outputAfter before events := by
  induction events generalizing p before with
  | nil => exact (List.append_nil _).symm
  | cons event rest ih =>
      have hwritten : (p.write event).written = p.written ++ event.writtenAfter before := by
        cases event with
        | data bytes => simp only [write, ShellEvent.writtenAfter, hbefore, List.append_assoc]
        | message text => exact List.append_assoc ..
      have hafter : (p.write event).afterMessage = (some event).any ShellEvent.isMessage := by
        cases event <;> rfl
      have hrest := ih (p.write event) hafter
      rw [writeAll, List.foldl_cons, outputAfter, ← List.append_assoc, ← hwritten]
      exact hrest

theorem written_empty (events : List ShellEvent) :
    (empty.writeAll events).written = outputAfter none events :=
  written_writeAll empty rfl events

/-- After data, pieces of data are written one behind the other. -/
theorem writeAll_data {p : Pipe} (h : p.afterMessage = false) (pieces : List Bytes) :
    p.writeAll (pieces.map .data) = ⟨p.written ++ pieces.flatten, false⟩ := by
  induction pieces generalizing p with
  | nil =>
      rw [List.flatten_nil, List.append_nil, ← h]
      rfl
  | cons piece rest ih =>
      have hwrite : p.write (.data piece) = ⟨p.written ++ piece, false⟩ := by
        simp [write, h]
      rw [List.map_cons, writeAll, List.foldl_cons, hwrite, List.flatten_cons, ← List.append_assoc]
      exact ih rfl

/-- An event in parts is written like the whole event. -/
theorem writeAll_parts {event : ShellEvent} {parts : List ShellEvent} (h : event.SplitsTo parts)
    (p : Pipe) : p.writeAll parts = p.write event := by
  cases h with
  | message text => rfl
  | data first more =>
      have hmore := @writeAll_data (p.write (.data first)) rfl more
      rw [writeAll, List.foldl_cons]
      refine hmore.trans ?_
      simp only [write, List.append_assoc]

/-- So are several events, each of them in parts. -/
theorem writeAll_flatten {events : List ShellEvent} {parts : List (List ShellEvent)}
    (h : List.Forall₂ ShellEvent.SplitsTo events parts) (p : Pipe) :
    p.writeAll parts.flatten = p.writeAll events := by
  induction h generalizing p with
  | nil => rfl
  | cons hone _ ih =>
      rw [List.flatten_cons, Network.writeAll_append, writeAll_parts hone, ih]
      rfl

end Pipe

namespace Network

variable {n m : Network} {list position : Nat}

/-! ## Paths -/

theorem getElem?_of_begins {α : Type} {xs ys : List α} (h : xs <+: ys) {index : Nat} {x : α}
    (hx : xs[index]? = some x) : ys[index]? = some x := by
  obtain ⟨more, rfl⟩ := h
  obtain ⟨hlt, -⟩ := List.getElem?_eq_some_iff.1 hx
  rw [List.getElem?_append_left hlt, hx]

/-- No event comes to a list on two paths. -/
def Single (n : Network) : Prop :=
  ∀ ⦃list last : Nat⦄ ⦃path other : List Nat⦄,
    n.Leads list path last → n.Leads list other last → path = other

/-- The paths of an event of an emitter to a list. -/
def pathsTo (n : Network) (emitter last : Nat) : Set (List Nat) :=
  {path | n.Leads (n.listOf emitter) path last}

/-- A path leads to the same list for good. -/
theorem Leads.performAll {path : List Nat} {last : Nat} (h : n.Leads list path last)
    (ops : List Operation) : (n.performAll ops).Leads list path last := by
  induction h with
  | here list => exact .here list
  | forward hforward _ ih =>
      exact .forward (getElem?_of_begins (n.listeners_prefix_performAll ops _) hforward) ih

theorem Single.of_performAll {ops : List Operation} (h : (n.performAll ops).Single) : n.Single :=
  fun _ _ _ _ hpath hother => h (hpath.performAll ops) (hother.performAll ops)

theorem Leads.transGen {first position : Nat} {path : List Nat} {last : Nat}
    (h : n.Leads first (position :: path) last) : Relation.TransGen n.Forwards first last := by
  generalize hpath : position :: path = whole at h
  induction h generalizing position path with
  | here => cases hpath
  | forward hforward hrest ih =>
      obtain ⟨rfl, rfl⟩ := List.cons.inj hpath
      have hstep := List.mem_of_getElem? hforward
      cases path with
      | nil =>
          cases hrest
          exact .single hstep
      | cons next path => exact .head hstep (ih rfl)

/-- Where each list passes its events on to one other list at most, no event comes to a list on two
paths. -/
theorem single_of_forward (hacyclic : n.Acyclic)
    (h : ∀ ⦃list position target place other : Nat⦄,
      (n.listeners list)[position]? = some (.forward target) →
      (n.listeners list)[place]? = some (.forward other) → position = place) : n.Single := by
  intro first last path other hpath hother
  induction hpath generalizing other with
  | here list =>
      cases other with
      | nil => rfl
      | cons position path => exact absurd hother.transGen (hacyclic list)
  | @forward list position target last path hforward hrest ih =>
      cases hother with
      | here => exact absurd (Leads.forward hforward hrest).transGen (hacyclic list)
      | forward hforward' hrest' =>
          obtain rfl := h hforward hforward'
          obtain rfl : target = _ := by simpa [hforward] using hforward'
          rw [ih hrest']

/-- An end point gets an event once for every path to its list. -/
theorem countP_deliveries (hacyclic : n.Acyclic) {l : Listener}
    (hplaced : (n.listeners list)[position]? = some l) (hends : l.passesOn = false)
    (emitter : Nat) :
    (n.deliveries emitter).countP (fun d => d.list = list ∧ d.position = position) =
      (n.pathsTo emitter list).ncard := by
  rw [List.countP_eq_length_filter]
  set ds := (n.deliveries emitter).filter (fun d => d.list = list ∧ d.position = position) with hds
  have hat : ∀ d ∈ ds, d.list = list ∧ d.position = position :=
    fun d hd => of_decide_eq_true (List.mem_filter.1 hd).2
  have hnodup : (ds.map Delivery.path).Nodup := by
    refine List.pairwise_map.2 (List.Pairwise.imp_of_mem (fun {a b} ha hb hlt heq => ?_)
      ((n.pairwise_deliveries emitter).filter _))
    -- two deliveries at one place have different addresses
    rw [Delivery.address, Delivery.address, heq, (hat a ha).2, (hat b hb).2] at hlt
    exact absurd hlt (List.lt_irrefl _)
  have hpaths : n.pathsTo emitter list = ((ds.map Delivery.path).toFinset : Set (List Nat)) := by
    ext path
    rw [Finset.mem_coe, List.mem_toFinset, List.mem_map]
    constructor
    · intro hpath
      refine ⟨⟨path, list, position, l⟩, List.mem_filter.2 ⟨?_, by simp⟩, rfl⟩
      exact (mem_deliveries hacyclic).2 ⟨hpath, hplaced, hends⟩
    · rintro ⟨d, hd, rfl⟩
      have hleads := ((mem_deliveries hacyclic).1 (List.mem_filter.1 hd).1).leads
      rw [(hat d hd).1] at hleads
      exact hleads
  rw [hpaths, Set.ncard_coe_finset, List.toFinset_card_of_nodup hnodup, List.length_map]

/-! ## The events of a list -/

/-- The events that come to a list, its own and those that are passed on to it: each of them once
for every path to the list. -/
noncomputable def arrivals (list : Nat) (es : List Emission) : List ShellEvent :=
  es.flatMap (fun e => List.replicate (e.network.pathsTo e.emitter list).ncard e.event)

theorem arrivals_append (list : Nat) (es later : List Emission) :
    arrivals list (es ++ later) = arrivals list es ++ arrivals list later :=
  List.flatMap_append

/-- An end point gets the events that come to its list while it is there. -/
theorem received_eq_arrivals {es : List Emission} {l : Listener} (hends : l.passesOn = false)
    (hplaced : ∀ e ∈ es, (e.network.listeners list)[position]? = some l)
    (hacyclic : ∀ e ∈ es, e.network.Acyclic) :
    received list position es = arrivals list es :=
  List.flatMap_congr (fun e he => by
    rw [Emission.deliveries, countP_deliveries (hacyclic e he) (hplaced e he) hends])

open Classical in
/-- Where no event has two paths, the events of a list are the emissions that get there, one behind
the other. -/
theorem arrivals_of_single {es : List Emission} (h : ∀ e ∈ es, e.network.Single) (list : Nat) :
    arrivals list es =
      (es.filter (fun e => (e.network.pathsTo e.emitter list).Nonempty)).map Emission.event := by
  induction es with
  | nil => rfl
  | cons e rest ih =>
      have hrest := ih (fun e he => h e (List.mem_cons_of_mem _ he))
      rw [arrivals, List.flatMap_cons, ← arrivals, hrest]
      by_cases hpath : (e.network.pathsTo e.emitter list).Nonempty
      · obtain ⟨path, hleads⟩ := hpath
        have hone : e.network.pathsTo e.emitter list = {path} :=
          Set.eq_singleton_iff_unique_mem.2
            ⟨hleads, fun other hother => h e List.mem_cons_self hother hleads⟩
        rw [hone, Set.ncard_singleton, List.filter_cons_of_pos (by simp [hone])]
        rfl
      · have hnone := Set.not_nonempty_iff_eq_empty.1 hpath
        rw [hnone, Set.ncard_empty, List.filter_cons_of_neg (by simp [hnone])]
        rfl

/-! ## A pipe from its subscription on -/

/-- Every emitter stands for a list that there is. -/
theorem known_perform (h : ∀ list ∈ n.emitters, list < n.lists.length) {op : Operation}
    (hop : ∀ emitter ∈ op.emitters, emitter < n.emitters.length) :
    ∀ list ∈ (n.perform op).emitters, list < (n.perform op).lists.length := by
  cases op with
  | create =>
      intro list hlist
      simp only [perform, create, List.mem_append, List.mem_singleton, List.length_append,
        List.length_singleton] at hlist ⊢
      rcases hlist with hlist | rfl
      · have hlt := h list hlist
        omega
      · omega
  | clone emitter =>
      have hemitter := hop emitter (List.mem_singleton_self _)
      intro list hlist
      simp only [perform, clone, List.mem_append, List.mem_singleton] at hlist ⊢
      rcases hlist with hlist | rfl
      · exact h list hlist
      · rw [listOf, List.getD_eq_getElem _ _ hemitter]
        exact h _ (List.getElem_mem hemitter)
  | emit emitter event =>
      obtain ⟨hlists, hemitters⟩ := emit_lists n emitter event
      rw [perform, hlists, hemitters]
      exact h
  | record emitter tag => simpa [perform, subscribe] using h
  | pipe emitter => simpa [perform, pipe, subscribe] using h
  | forward source target => simpa [perform, forward, subscribe] using h

theorem known_performAll (h : ∀ list ∈ n.emitters, list < n.lists.length)
    {ops later : List Operation} (hknown : n.Known (ops ++ later)) :
    ∀ list ∈ (n.performAll ops).emitters, list < (n.performAll ops).lists.length := by
  induction ops generalizing n with
  | nil => exact h
  | cons op rest ih => exact ih (known_perform h hknown.1) hknown.2

theorem Known.listOf_lt {past rest : List Operation} {op : Operation} {emitter : Nat}
    (h : empty.Known (past ++ op :: rest)) (hemitter : emitter ∈ op.emitters) :
    (empty.performAll past).listOf emitter < (empty.performAll past).lists.length := by
  have hlt : emitter < (empty.performAll past).emitters.length := h.of_append.1 emitter hemitter
  rw [listOf, List.getD_eq_getElem _ _ hlt]
  exact @known_performAll empty (by simp [empty]) _ _ h _ (List.getElem_mem hlt)

/-- A pipe joins the list at its end, with a stream of its own. -/
theorem placed_pipe {emitter : Nat} (h : n.listOf emitter < n.lists.length) :
    ((n.pipe emitter).listeners (n.listOf emitter))[(n.listeners (n.listOf emitter)).length]? =
      some (.pipe n.pipes.length) := by
  have hlisteners := n.listeners_perform (.pipe emitter) (n.listOf emitter)
  rw [perform] at hlisteners
  rw [hlisteners]
  simp [joining?, h]

/-- The stream of a pipe holds the events of its list from its subscription on. -/
theorem pipes_performAll_pipe {past rest : List Operation} {emitter : Nat}
    (hknown : empty.Known (past ++ .pipe emitter :: rest))
    (hacyclic : (empty.performAll (past ++ .pipe emitter :: rest)).Acyclic) :
    let n := empty.performAll past
    (empty.performAll (past ++ .pipe emitter :: rest)).pipes[n.pipes.length]? =
      some (Pipe.empty.writeAll
        (arrivals (n.listOf emitter) ((n.pipe emitter).emissions rest))) := by
  intro n
  have hruns : empty.performAll (past ++ .pipe emitter :: rest) =
      (n.pipe emitter).performAll rest :=
    performAll_append empty past (.pipe emitter :: rest)
  have hplaced := placed_pipe (hknown.listOf_lt (List.mem_singleton_self emitter))
  have hlater : ∀ e ∈ (n.pipe emitter).emissions rest,
      (e.network.listeners (n.listOf emitter))[(n.listeners (n.listOf emitter)).length]? =
          some (.pipe n.pipes.length) ∧ e.network.Acyclic := by
    intro e he
    obtain ⟨between, last, rfl, hnetwork⟩ := mem_emissions he
    rw [hruns, performAll_append] at hacyclic
    rw [hnetwork]
    exact ⟨getElem?_of_begins ((n.pipe emitter).listeners_prefix_performAll between _) hplaced,
      hacyclic.of_performAll⟩
  have hend := getElem?_of_begins ((n.pipe emitter).listeners_prefix_performAll rest _) hplaced
  rw [← hruns] at hend
  -- nothing was received at its place before
  have hbefore : received (n.listOf emitter) (n.listeners (n.listOf emitter)).length
      (empty.emissions past) = [] := received_eq_nil (Nat.le_refl _)
  have hemissions : empty.emissions (past ++ .pipe emitter :: rest) =
      empty.emissions past ++ (n.pipe emitter).emissions rest :=
    emissions_append empty past (.pipe emitter :: rest)
  rw [(streaming_performAll _).holds hend, hemissions, received_append, hbefore, List.nil_append,
    received_eq_arrivals rfl (fun e he => (hlater e he).1) (fun e he => (hlater e he).2)]

/-! ## Emitting data in pieces -/

/-- The ways to emit in parts what an operation emits at once. -/
inductive Operation.SplitsTo : Operation → List Operation → Prop
  | same (op : Operation) : SplitsTo op [op]
  | emit (emitter : Nat) {event : ShellEvent} {parts : List ShellEvent}
    (hparts : event.SplitsTo parts) : SplitsTo (.emit emitter event) (parts.map (.emit emitter))

/-- Two networks with the same listeners and the same streams. What is on record may be
different. -/
structure SameListeners (n m : Network) : Prop where
  lists : n.lists = m.lists
  emitters : n.emitters = m.emitters
  pipes : n.pipes = m.pipes

theorem reachedWithin_of_lists (h : n.lists = m.lists) (hops list : Nat) :
    n.reachedWithin hops list = m.reachedWithin hops list := by
  induction hops generalizing list with
  | zero => rw [reachedWithin, reachedWithin, listeners, listeners, h]
  | succ hops ih =>
      rw [reachedWithin, reachedWithin, listeners, listeners, h]
      refine List.flatMap_congr (fun l _ => ?_)
      cases l with
      | forward target => exact ih target
      | _ => rfl

namespace SameListeners

theorem listOf (h : n.SameListeners m) (emitter : Nat) : n.listOf emitter = m.listOf emitter := by
  rw [Network.listOf, Network.listOf, h.lists, h.emitters]

theorem reached (h : n.SameListeners m) (emitter : Nat) :
    n.reached emitter = m.reached emitter := by
  rw [Network.reached, Network.reached, h.listOf, h.lists]
  exact reachedWithin_of_lists h.lists _ _

theorem perform (h : n.SameListeners m) (op : Operation) :
    (n.perform op).SameListeners (m.perform op) := by
  cases op with
  | create => exact ⟨by simp [Network.perform, create, h.lists],
      by simp [Network.perform, create, h.lists, h.emitters], h.pipes⟩
  | clone emitter => exact ⟨h.lists,
      by simp [Network.perform, clone, h.listOf, h.emitters], h.pipes⟩
  | record emitter tag => exact ⟨by simp [Network.perform, subscribe, h.listOf, h.lists],
      h.emitters, h.pipes⟩
  | pipe emitter => exact ⟨by simp [Network.perform, pipe, subscribe, h.listOf, h.lists, h.pipes],
      h.emitters, by simp [Network.perform, pipe, h.pipes]⟩
  | forward source target => exact ⟨by
      simp [Network.perform, forward, subscribe, h.listOf, h.lists], h.emitters, h.pipes⟩
  | emit emitter event =>
      obtain ⟨hlists, hemitters⟩ := emit_lists n emitter event
      obtain ⟨hlists', hemitters'⟩ := emit_lists m emitter event
      refine ⟨hlists.trans (h.lists.trans hlists'.symm),
        hemitters.trans (h.emitters.trans hemitters'.symm), List.ext_getElem? (fun number => ?_)⟩
      rw [Network.perform, Network.perform, pipes_emit, pipes_emit, h.reached, h.pipes]

end SameListeners

/-- Where no event has two paths, a stream is reached once at most. -/
theorem count_reached_le_one {es : List Emission} (h : n.Streaming es) (hacyclic : n.Acyclic)
    (hsingle : n.Single) (emitter number : Nat) :
    (n.reached emitter).count (.pipe number) ≤ 1 := by
  by_cases hplaced : .pipe number ∈ n.reached emitter
  · obtain ⟨d, hd, hlistener⟩ := List.mem_map.1 (map_listener_deliveries n emitter ▸ hplaced)
    have hthere := (mem_deliveriesWithin.1 hd).1.placed
    rw [hlistener] at hthere
    have hpaths : (n.pathsTo emitter d.list).Subsingleton :=
      fun _ hpath _ hother => hsingle hpath hother
    rw [h.count_reached hthere, countP_deliveries hacyclic hthere rfl]
    exact (Set.ncard_le_one_iff hpaths.finite).2 (fun hpath hother => hpaths hpath hother)
  · rw [List.count_eq_zero_of_not_mem hplaced]
    exact Nat.zero_le 1

/-- What several emissions of one emitter write to a stream: all that they emit, if the stream is
reached, since none of them changes who is. -/
theorem emitAll_pipes (n : Network) {emitter number : Nat}
    (hone : (n.reached emitter).count (.pipe number) ≤ 1) (events : List ShellEvent) :
    (n.performAll (events.map (.emit emitter))).pipes[number]? =
      n.pipes[number]?.map (fun stream =>
        if .pipe number ∈ n.reached emitter then stream.writeAll events else stream) := by
  induction events generalizing n with
  | nil => simp [performAll, Pipe.writeAll]
  | cons event rest ih =>
      have hsame : (n.emit emitter event).reached emitter = n.reached emitter := by
        obtain ⟨hlists, hemitters⟩ := emit_lists n emitter event
        rw [reached, reached, listOf, listOf, hlists, hemitters]
        exact reachedWithin_of_lists hlists _ _
      have hrest := ih (n.emit emitter event) (hsame.symm ▸ hone)
      rw [List.map_cons, performAll, List.foldl_cons]
      refine hrest.trans ?_
      rw [hsame, pipes_emit, Option.map_map]
      refine congrArg (n.pipes[number]?.map ·) (funext fun stream => ?_)
      by_cases hreached : .pipe number ∈ n.reached emitter
      · have hcount : (n.reached emitter).count (.pipe number) = 1 :=
          Nat.le_antisymm hone (List.count_pos_iff.2 hreached)
        simp [hreached, hcount, Pipe.writeAll]
      · simp [hreached, List.count_eq_zero_of_not_mem hreached, Pipe.writeAll]

theorem emitAll_lists (n : Network) (emitter : Nat) (events : List ShellEvent) :
    (n.performAll (events.map (.emit emitter))).lists = n.lists ∧
      (n.performAll (events.map (.emit emitter))).emitters = n.emitters := by
  induction events generalizing n with
  | nil => exact ⟨rfl, rfl⟩
  | cons event rest ih =>
      obtain ⟨hlists, hemitters⟩ := emit_lists n emitter event
      exact ⟨(ih _).1.trans hlists, (ih _).2.trans hemitters⟩

/-- An operation that emits in parts does the same to streams as one that emits at once. -/
theorem sameListeners_parts {es : List Emission} (h : n.Streaming es) (hacyclic : n.Acyclic)
    (hsingle : n.Single) {op : Operation} {parts : List Operation} (hparts : op.SplitsTo parts)
    (hsame : n.SameListeners m) : (n.perform op).SameListeners (m.performAll parts) := by
  cases hparts with
  | same => exact hsame.perform op
  | @emit emitter event events hsplits =>
      obtain ⟨hlists, hemitters⟩ := emit_lists n emitter event
      obtain ⟨hlists', hemitters'⟩ := emitAll_lists m emitter events
      refine ⟨hlists.trans (hsame.lists.trans hlists'.symm),
        hemitters.trans (hsame.emitters.trans hemitters'.symm),
        List.ext_getElem? (fun number => ?_)⟩
      have hone := count_reached_le_one h hacyclic hsingle emitter number
      have hwhole := n.emitAll_pipes hone [event]
      rw [hsame.reached] at hone
      rw [emitAll_pipes m hone, ← hsame.reached, ← hsame.pipes]
      refine hwhole.trans ?_
      simp only [Pipe.writeAll_parts hsplits]
      rfl

/-- A whole run does, in which every operation may emit in parts. -/
theorem sameListeners_performAll {ops : List Operation} {parts : List (List Operation)}
    (hparts : List.Forall₂ Operation.SplitsTo ops parts) {past : List Operation}
    (hacyclic : (empty.performAll (past ++ ops)).Acyclic)
    (hsingle : (empty.performAll (past ++ ops)).Single)
    (hsame : (empty.performAll past).SameListeners m) :
    (empty.performAll (past ++ ops)).SameListeners (m.performAll parts.flatten) := by
  induction hparts generalizing past m with
  | nil => rwa [List.append_nil]
  | @cons op part ops parts hop _ ih =>
      have hnow : (empty.performAll past).Acyclic ∧ (empty.performAll past).Single := by
        rw [performAll_append] at hacyclic hsingle
        exact ⟨hacyclic.of_performAll, hsingle.of_performAll⟩
      have hstep := sameListeners_parts (streaming_performAll past) hnow.1 hnow.2 hop hsame
      rw [← performAll_concat] at hstep
      rw [List.append_cons] at hacyclic hsingle ⊢
      rw [List.flatten_cons, performAll_append m]
      exact ih hacyclic hsingle hstep

/-! ## A run -/

open Classical in
/-- What is written to a stream is what its events write, in their order: a message behind a line
break, and data as it is, but behind a line break of its own and an empty line where the event right
before it is a message. So it does not matter into how many pieces data is cut.

The events of a stream, in a run in which no circle is made, are those that come to its list from
its subscription on, whatever else is subscribed there and whenever. Where no event has two paths,
these are the events of all emitters from which there is a path to the list, in the order in which
they are emitted; and no stream of the run is different when data is emitted in several pieces. -/
theorem streams_written :
    (∀ events, (Pipe.empty.writeAll events).written = Pipe.outputAfter none events) ∧
    (∀ events parts, List.Forall₂ ShellEvent.SplitsTo events parts →
      Pipe.outputAfter none parts.flatten = Pipe.outputAfter none events) ∧
    ∀ ops, empty.Known ops → (empty.performAll ops).Acyclic →
      (∀ past emitter rest, ops = past ++ .pipe emitter :: rest →
        let n := empty.performAll past
        let before := empty.emissions past
        let since := (n.pipe emitter).emissions rest
        empty.emissions ops = before ++ since ∧
        arrivals (n.listOf emitter) (empty.emissions ops) =
          arrivals (n.listOf emitter) before ++ arrivals (n.listOf emitter) since ∧
        (∃ stream, (empty.performAll ops).pipes[n.pipes.length]? = some stream ∧
          stream.written = Pipe.outputAfter none (arrivals (n.listOf emitter) since)) ∧
        ((empty.performAll ops).Single →
          arrivals (n.listOf emitter) since =
            (since.filter (fun e => (e.network.pathsTo e.emitter (n.listOf emitter)).Nonempty)).map
              Emission.event)) ∧
      ((empty.performAll ops).Single → ∀ parts, List.Forall₂ Operation.SplitsTo ops parts →
        (empty.performAll parts.flatten).pipes = (empty.performAll ops).pipes) := by
  refine ⟨Pipe.written_empty, fun events parts hparts => ?_, fun ops hknown hacyclic => ⟨?_, ?_⟩⟩
  · rw [← Pipe.written_empty, Pipe.writeAll_flatten hparts, Pipe.written_empty]
  · rintro past emitter rest rfl n before since
    have hemissions : empty.emissions (past ++ .pipe emitter :: rest) = before ++ since :=
      emissions_append empty past (.pipe emitter :: rest)
    refine ⟨hemissions, by rw [hemissions, arrivals_append],
      ⟨_, pipes_performAll_pipe hknown hacyclic, Pipe.written_empty _⟩, fun hsingle => ?_⟩
    refine arrivals_of_single (fun e he => ?_) _
    obtain ⟨between, last, rfl, hnetwork⟩ := mem_emissions he
    rw [hnetwork]
    rw [performAll_append] at hsingle
    exact @Single.of_performAll _ (.emit e.emitter e.event :: last)
      (by rw [← performAll_append]; exact hsingle)
  · intro hsingle parts hparts
    have hstart : (empty.performAll []).SameListeners empty := ⟨rfl, rfl, rfl⟩
    exact (@sameListeners_performAll _ _ _ hparts [] hacyclic hsingle hstart).pipes.symm

/-- Two shells that pass their events on to a third one, with a pipe from the beginning and a later
one. -/
def twoShells : List Operation :=
  [.create, .create, .create, .forward 0 2, .forward 1 2, .pipe 2, .emit 0 (.message "a"),
    .pipe 2, .emit 1 (.data [98, 99]), .emit 0 (.message "d")]

/-- The data follows a message in the first stream and is the first event of the second one. It
could come in pieces, of which the first one is empty. -/
theorem streams_written_sample :
    let n := empty.performAll twoShells
    empty.Known twoShells ∧ n.Acyclic ∧ n.Single ∧
    (Pipe.empty.writeAll [.message "a", .data [98, 99], .message "d"]).written =
      [13, 10, 97, 13, 10, 10, 98, 99, 13, 10, 100] ∧
    (∃ stream, n.pipes[1]? = some stream ∧ stream.written = [98, 99, 13, 10, 100]) ∧
    (empty.performAll (twoShells.take 8 ++ [.emit 1 (.data []), .emit 1 (.data [98]),
      .emit 1 (.data [99]), .emit 0 (.message "d")])).pipes = n.pipes := by
  intro n
  have hknown : empty.Known twoShells := by decide
  have hlists : n.lists = [[.forward 2], [.forward 2], [.pipe 0, .pipe 1]] := by decide
  have hforward : ∀ {list position target : Nat},
      (n.listeners list)[position]? = some (.forward target) →
        list < 2 ∧ position = 0 ∧ target = 2 := by
    intro list position target h
    rw [listeners, hlists] at h
    obtain _ | _ | _ | list := list <;> obtain _ | _ | position := position <;> simp at h
    · exact ⟨by omega, rfl, h.symm⟩
    · exact ⟨by omega, rfl, h.symm⟩
  have hacyclic : n.Acyclic := by
    refine acyclic_of_lt (fun list target htarget => ?_)
    obtain ⟨position, hposition⟩ := List.mem_iff_getElem?.1 htarget
    obtain ⟨hlt, -, rfl⟩ := hforward hposition
    exact hlt
  have hsingle : n.Single := single_of_forward hacyclic (fun _ _ _ _ _ h h' =>
    (hforward h).2.1.trans (hforward h').2.1.symm)
  obtain ⟨hwritten, -, hrun⟩ := streams_written
  obtain ⟨hpipe, hparts⟩ := hrun twoShells hknown hacyclic
  refine ⟨hknown, hacyclic, hsingle, (hwritten _).trans (by decide +kernel), ?_, ?_⟩
  · obtain ⟨-, -, ⟨stream, hstream, hholds⟩, harrivals⟩ :=
      hpipe (twoShells.take 7) 2 (twoShells.drop 8) rfl
    refine ⟨stream, hstream, hholds.trans ?_⟩
    -- both later events have a path to the third list
    rw [harrivals hsingle, List.filter_eq_self.2 ?_]
    · decide +kernel
    · classical
      intro e he
      refine decide_eq_true ⟨[0], ?_⟩
      rcases List.mem_cons.1 he with rfl | he
      · exact @Leads.forward _ _ 0 2 _ _ (by decide) (.here 2)
      · obtain rfl := List.mem_singleton.1 he
        exact @Leads.forward _ _ 0 2 _ _ (by decide) (.here 2)
  · exact hparts hsingle [[.create], [.create], [.create], [.forward 0 2], [.forward 1 2],
      [.pipe 2], [.emit 0 (.message "a")], [.pipe 2],
      [.emit 1 (.data []), .emit 1 (.data [98]), .emit 1 (.data [99])],
      [.emit 0 (.message "d")]]
      (.cons (.same _) <| .cons (.same _) <| .cons (.same _) <| .cons (.same _) <|
        .cons (.same _) <| .cons (.same _) <| .cons (.same _) <| .cons (.same _) <|
        .cons (.emit 1 (.data [] [[98], [99]])) <| .cons (.same _) .nil)

end Network

end ScriptRunner

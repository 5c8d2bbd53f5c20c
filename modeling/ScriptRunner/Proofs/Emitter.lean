import Mathlib.Data.List.GetD
import Mathlib.Data.List.Nodup
import Mathlib.Data.List.Perm.Subperm
import Mathlib.Logic.Relation
import ScriptRunner.Emitter

/-!
# ScriptRunner.Proofs.Emitter

Passing events on.

In a network without circles an event is passed on less often than there are lists
(`Network.reachedWithin_succ`), so the bound on hops stops no event, and making more lists changes
nothing about those before (`Network.Feeds`). A new emitter whose events are passed on to another
is heard wherever that one is (`Network.Feeds.attached`), and what end points have got does not
depend on which of the two the events were emitted on (`Network.Delivers`).
-/

namespace ScriptRunner

namespace Network

variable {n m : Network}

/-- The events of one list are passed on to the other. -/
def Forwards (n : Network) (list target : Nat) : Prop := .forward target ∈ n.listeners list

/-- A network as it is meant to be: emitters stand for lists that exist, and events are passed on
to such lists, and in no circle. -/
structure Sound (n : Network) : Prop where
  known : ∀ list ∈ n.emitters, list < n.lists.length
  targets : ∀ list target, n.Forwards list target → target < n.lists.length
  acyclic : ∀ list, ¬ Relation.TransGen n.Forwards list list

/-! ## How far an event is passed on -/

theorem listeners_of_le {list : Nat} (h : n.lists.length ≤ list) : n.listeners list = [] := by
  simp [listeners, h]

theorem Forwards.lt {list target : Nat} (h : n.Forwards list target) : list < n.lists.length := by
  by_contra hle
  rw [Forwards, listeners_of_le (by omega)] at h
  cases h

/-- An event that has been passed on as often as there are lists is not passed on any more.
`behind` are the lists that it came through. -/
theorem reachedWithin_succ (hacyclic : ∀ list, ¬ Relation.TransGen n.Forwards list list)
    {behind : List Nat} {hops list : Nat} (hnodup : behind.Nodup)
    (hcame : ∀ l ∈ behind, Relation.TransGen n.Forwards l list)
    (hlength : n.lists.length ≤ behind.length + hops) :
    n.reachedWithin (hops + 1) list = n.reachedWithin hops list := by
  induction hops generalizing behind list with
  | zero =>
      -- all lists are behind the event, so this one is none of them
      have hout : n.lists.length ≤ list := by
        by_contra hlt
        have hnew : list ∉ behind := fun hmem => hacyclic list (hcame list hmem)
        have hsub : list :: behind ⊆ List.range n.lists.length := by
          intro l hl
          rw [List.mem_range]
          rcases List.mem_cons.1 hl with rfl | hl
          · omega
          · obtain ⟨_, hfirst, -⟩ := Relation.TransGen.head'_iff.1 (hcame l hl)
            exact hfirst.lt
        have hle := (List.subperm_of_subset (List.nodup_cons.2 ⟨hnew, hnodup⟩) hsub).length_le
        rw [List.length_cons, List.length_range] at hle
        omega
      rw [reachedWithin, reachedWithin, listeners_of_le hout]
      rfl
  | succ hops ih =>
      rw [reachedWithin, reachedWithin]
      refine List.flatMap_congr (fun l hl => ?_)
      cases l with
      | forward target =>
          have hstep : n.Forwards list target := hl
          have hnew : list ∉ behind := fun hmem => hacyclic list (hcame list hmem)
          refine ih (List.nodup_cons.2 ⟨hnew, hnodup⟩) (fun l hl => ?_) ?_
          · rcases List.mem_cons.1 hl with rfl | hl
            · exact .single hstep
            · exact (hcame l hl).tail hstep
          · rw [List.length_cons]
            omega
      | _ => rfl

/-- With no circle, more hops than there are lists make no difference. -/
theorem Sound.reachedWithin (h : n.Sound) (list : Nat) {hops : Nat}
    (hle : n.lists.length ≤ hops) :
    n.reachedWithin hops list = n.reachedWithin n.lists.length list := by
  obtain ⟨more, rfl⟩ := Nat.exists_eq_add_of_le hle
  induction more with
  | zero => rfl
  | succ more ih =>
      rw [← ih (by omega), ← Nat.add_assoc]
      exact reachedWithin_succ h.acyclic List.nodup_nil (by simp) (by simp)

/-- What a network does with an event does not depend on lists that the event cannot get to. -/
theorem reachedWithin_congr (hsame : ∀ list < n.lists.length, m.listeners list = n.listeners list)
    (htargets : ∀ list target, n.Forwards list target → target < n.lists.length) (hops : Nat)
    {list : Nat} (hlist : list < n.lists.length) :
    m.reachedWithin hops list = n.reachedWithin hops list := by
  induction hops generalizing list with
  | zero => rw [reachedWithin, reachedWithin, hsame list hlist]
  | succ hops ih =>
      rw [reachedWithin, reachedWithin, hsame list hlist]
      refine List.flatMap_congr (fun l hl => ?_)
      cases l with
      | forward target => exact ih (htargets list target hl)
      | _ => rfl

/-! ## Where the events of an emitter arrive -/

/-- The events of an emitter arrive at these end points, and will when more lists are made. -/
structure Feeds (n : Network) (emitter : Nat) (ends : List Listener) : Prop where
  known : emitter < n.emitters.length
  inside : n.listOf emitter < n.lists.length
  targets : ∀ list target, n.Forwards list target → target < n.lists.length
  reached : ∃ bound ≤ n.lists.length, ∀ hops, bound ≤ hops →
    n.reachedWithin hops (n.listOf emitter) = ends

variable {emitter other : Nat} {ends : List Listener}

theorem Sound.feeds (h : n.Sound) (hknown : emitter < n.emitters.length) :
    n.Feeds emitter (n.reached emitter) := by
  have hinside : n.listOf emitter < n.lists.length := by
    rw [listOf, List.getD_eq_getElem _ _ hknown]
    exact h.known _ (List.getElem_mem hknown)
  exact ⟨hknown, hinside, h.targets, n.lists.length, Nat.le_refl _,
    fun _ hle => h.reachedWithin _ hle⟩

theorem Feeds.reached_eq (h : n.Feeds emitter ends) : n.reached emitter = ends := by
  obtain ⟨bound, hle, hends⟩ := h.reached
  exact hends n.lists.length hle

/-- More lists and more emitters, with nothing changed about those before. -/
structure Extends (n m : Network) : Prop where
  lists : n.lists <+: m.lists
  emitters : n.emitters <+: m.emitters
  targets : ∀ list target, m.Forwards list target → target < m.lists.length

theorem Extends.listeners (h : n.Extends m) {list : Nat} (hlist : list < n.lists.length) :
    m.listeners list = n.listeners list := by
  obtain ⟨more, hmore⟩ := h.lists
  rw [Network.listeners, Network.listeners, ← hmore, List.getD_append _ _ _ _ hlist]

theorem Extends.listOf (h : n.Extends m) (hknown : emitter < n.emitters.length) :
    m.listOf emitter = n.listOf emitter := by
  obtain ⟨more, hmore⟩ := h.emitters
  rw [Network.listOf, Network.listOf, ← hmore, List.getD_append _ _ _ _ hknown,
    List.getD_eq_getElem _ _ hknown, List.getD_eq_getElem _ _ hknown]

theorem Feeds.extends (h : n.Feeds emitter ends) (hm : n.Extends m) : m.Feeds emitter ends := by
  have hlength := hm.lists.length_le
  have hlist := hm.listOf h.known
  have hinside := h.inside
  obtain ⟨bound, hle, hends⟩ := h.reached
  refine ⟨Nat.lt_of_lt_of_le h.known hm.emitters.length_le, by omega, hm.targets, bound, by omega,
    fun hops hbound => ?_⟩
  rw [hlist, ← hends hops hbound]
  exact reachedWithin_congr (fun list hlt => hm.listeners hlt) h.targets hops h.inside

/-! ## A new emitter that passes its events on -/

/-- A new emitter whose events are passed on to another. It gets the next number. -/
def attach (n : Network) (emitter : Nat) : Network :=
  n.create.forward n.emitters.length emitter

theorem attach_eq (hknown : emitter < n.emitters.length) :
    n.attach emitter =
      { n with lists := n.lists ++ [[.forward (n.listOf emitter)]]
               emitters := n.emitters ++ [n.lists.length] } := by
  have hsource : n.create.listOf n.emitters.length = n.lists.length := by
    simp [create, listOf]
  have htarget : n.create.listOf emitter = n.listOf emitter := by
    simp [create, listOf, List.getD_eq_getElem?_getD, List.getElem?_append_left hknown, hknown]
  rw [attach, forward, subscribe, hsource, htarget]
  simp [create, List.modify_eq_take_cons_drop]

theorem Feeds.extends_attach (h : n.Feeds emitter ends) : n.Extends (n.attach emitter) := by
  rw [attach_eq h.known]
  refine ⟨List.prefix_append _ _, List.prefix_append _ _, fun list target hforward => ?_⟩
  rw [Forwards, Network.listeners] at hforward
  rw [List.length_append, List.length_singleton]
  by_cases hlist : list < n.lists.length
  · rw [List.getD_append _ _ _ _ hlist] at hforward
    have hold := h.targets list target hforward
    omega
  · rw [List.getD_append_right _ _ _ _ (by omega)] at hforward
    cases hindex : list - n.lists.length with
    | zero =>
        rw [hindex] at hforward
        have htarget : target = n.listOf emitter := by simpa using hforward
        have hinside := h.inside
        omega
    | succ index => simp [hindex] at hforward

/-- The events of the new emitter arrive where those of the other do. -/
theorem Feeds.attached (h : n.Feeds emitter ends) :
    (n.attach emitter).Feeds n.emitters.length ends := by
  have hextends := h.extends_attach
  have heq := attach_eq h.known
  have hlist : (n.attach emitter).listOf n.emitters.length = n.lists.length := by
    simp [heq, Network.listOf]
  have hlength : (n.attach emitter).lists.length = n.lists.length + 1 := by simp [heq]
  have hlisteners : (n.attach emitter).listeners n.lists.length = [.forward (n.listOf emitter)] := by
    simp [heq, Network.listeners]
  obtain ⟨bound, hle, hends⟩ := h.reached
  refine ⟨by simp [heq], by omega, hextends.targets, bound + 1, by omega, fun hops hbound => ?_⟩
  -- the first hop leads to the other emitter's list
  obtain ⟨rest, rfl⟩ := Nat.exists_eq_add_of_le' hbound
  rw [hlist, ← Nat.add_assoc, Network.reachedWithin, hlisteners, List.flatMap_singleton]
  have hsame := reachedWithin_congr (fun list hlt => hextends.listeners hlt) h.targets
    (rest + bound) h.inside
  exact hsame.trans (hends _ (by omega))

/-! ## What arrives -/

/-- Getting an event changes neither emitters nor listeners. -/
theorem deliver_lists (event : ShellEvent) (n : Network) (l : Listener) :
    (deliver event n l).lists = n.lists ∧ (deliver event n l).emitters = n.emitters := by
  cases l <;> exact ⟨rfl, rfl⟩

/-- These end points get these events. -/
def receive (ends : List Listener) (n : Network) (events : List ShellEvent) : Network :=
  events.foldl (fun n event => ends.foldl (deliver event) n) n

/-- An emitter emits these events. -/
def emitAll (n : Network) (emitter : Nat) (events : List ShellEvent) : Network :=
  events.foldl (fun n event => n.emit emitter event) n

theorem receive_lists (ends : List Listener) (n : Network) (events : List ShellEvent) :
    (receive ends n events).lists = n.lists ∧ (receive ends n events).emitters = n.emitters := by
  have hone : ∀ (n : Network) (event : ShellEvent),
      (ends.foldl (deliver event) n).lists = n.lists ∧
        (ends.foldl (deliver event) n).emitters = n.emitters := by
    intro n event
    induction ends generalizing n with
    | nil => exact ⟨rfl, rfl⟩
    | cons l rest ih =>
        obtain ⟨hlists, hemitters⟩ := deliver_lists event n l
        rw [List.foldl_cons, ← hlists, ← hemitters]
        exact ih _
  induction events generalizing n with
  | nil => exact ⟨rfl, rfl⟩
  | cons event rest ih =>
      obtain ⟨hlists, hemitters⟩ := hone n event
      rw [← hlists, ← hemitters]
      exact ih _

/-- Getting events changes nothing about who gets them. -/
theorem Feeds.extends_receive (h : n.Feeds emitter ends) (others : List Listener)
    (events : List ShellEvent) : n.Extends (receive others n events) := by
  obtain ⟨hlists, hemitters⟩ := receive_lists others n events
  refine ⟨hlists ▸ List.prefix_rfl, hemitters ▸ List.prefix_rfl, fun list target hforward => ?_⟩
  rw [Forwards, Network.listeners, hlists] at hforward
  rw [hlists]
  exact h.targets list target hforward

theorem Feeds.emitAll_eq (h : n.Feeds emitter ends) (events : List ShellEvent) :
    n.emitAll emitter events = receive ends n events := by
  induction events generalizing n with
  | nil => rfl
  | cons event rest ih =>
      have hfirst : n.emit emitter event = receive ends n [event] := by
        rw [emit, h.reached_eq]
        rfl
      have hnext := h.extends (h.extends_receive ends [event])
      rw [← hfirst] at hnext
      have hrest := ih hnext
      rw [hfirst] at hrest
      rw [emitAll, List.foldl_cons, hfirst]
      exact hrest

/-- Two networks in which the same has arrived. -/
structure SameStreams (n m : Network) : Prop where
  pipes : n.pipes = m.pipes
  records : n.records = m.records

theorem SameStreams.deliver (h : n.SameStreams m) (event : ShellEvent) (l : Listener) :
    (deliver event n l).SameStreams (deliver event m l) := by
  cases l with
  | recorder tag => exact ⟨h.pipes, by simp only [Network.deliver, h.records]⟩
  | pipe number => exact ⟨by simp only [Network.deliver, h.pipes], h.records⟩
  | forward target => exact h

theorem SameStreams.receive (h : n.SameStreams m) (ends : List Listener)
    (events : List ShellEvent) :
    (receive ends n events).SameStreams (receive ends m events) := by
  have hone : ∀ {n m : Network} (event : ShellEvent), n.SameStreams m →
      (ends.foldl (Network.deliver event) n).SameStreams
        (ends.foldl (Network.deliver event) m) := by
    intro n m event h
    induction ends generalizing n m with
    | nil => exact h
    | cons l rest ih => exact ih (h.deliver event l)
  induction events generalizing n m with
  | nil => exact h
  | cons event rest ih => exact ih (hone event h)

/-- From one network to the next, the end points have got these events. -/
structure Delivers (ends : List Listener) (n : Network) (events : List ShellEvent) (m : Network) :
    Prop where
  extended : n.Extends m
  streams : m.SameStreams (receive ends n events)

theorem Delivers.refl (h : n.Feeds emitter ends) : Delivers ends n [] n :=
  ⟨⟨List.prefix_rfl, List.prefix_rfl, h.targets⟩, ⟨rfl, rfl⟩⟩

theorem Delivers.trans {k : Network} {events later : List ShellEvent} (h : Delivers ends n events m)
    (h' : Delivers ends m later k) : Delivers ends n (events ++ later) k := by
  refine ⟨⟨h.extended.lists.trans h'.extended.lists,
    h.extended.emitters.trans h'.extended.emitters, h'.extended.targets⟩, ?_⟩
  have hall : receive ends n (events ++ later) = receive ends (receive ends n events) later :=
    List.foldl_append
  have hlater := h.streams.receive ends later
  rw [hall]
  exact ⟨h'.streams.pipes.trans hlater.pipes, h'.streams.records.trans hlater.records⟩

theorem Feeds.delivers (h : n.Feeds emitter ends) (events : List ShellEvent) :
    Delivers ends n events (n.emitAll emitter events) := by
  rw [h.emitAll_eq]
  exact ⟨h.extends_receive ends events, ⟨rfl, rfl⟩⟩

theorem Feeds.delivers_attach (h : n.Feeds emitter ends) :
    Delivers ends n [] (n.attach emitter) := by
  refine ⟨h.extends_attach, ?_⟩
  rw [attach_eq h.known]
  exact ⟨rfl, rfl⟩

end Network

end ScriptRunner

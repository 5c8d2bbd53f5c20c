import Mathlib.Data.List.Count
import Mathlib.Data.List.Induction
import Mathlib.Logic.Function.Basic
import ScriptRunner.Proofs.Emitter

/-!
# ScriptRunner.Proofs.Delivery

Who gets which events, and in which order.

A listener has a place: a list, and a position in it. Lists only grow at their ends, so a place is
the same listener's for good. An event gets to a list along a path of forwardings
(`Network.Leads`); a `Delivery` is a path together with a place in the list that it leads to. Read
as one list of positions, the path and then the place, it is the address of the delivery. The
deliveries of an event are all those that there are addresses for (`Network.mem_deliveries`), in the
order of their addresses (`Network.pairwise_deliveries`): a forwarding has its turn as a whole, at
its own position.

What the listeners have got is then a matter of all emissions of a run, one after the other
(`Network.records_performAll`, `Network.Streaming`). Main statement: `Network.delivery_per_path`.
-/

namespace ScriptRunner

/-- Whether a listener passes events on to another list. -/
def Listener.passesOn : Listener → Bool
  | .forward _ => true
  | _ => false

namespace Network

variable {n : Network}

/-- Events are not passed on in a circle. -/
def Acyclic (n : Network) : Prop := ∀ list, ¬ Relation.TransGen n.Forwards list list

/-! ## Operations -/

/-- What can be done with emitters, which are numbered in the order in which they are made. -/
inductive Operation
  | create
  | clone (emitter : Nat)
  /-- Subscribes a recorder. -/
  | record (emitter : Nat) (tag : String)
  | pipe (emitter : Nat)
  | forward (source target : Nat)
  | emit (emitter : Nat) (event : ShellEvent)
  deriving DecidableEq, Repr

namespace Operation

/-- The emitters that an operation is about. -/
def emitters : Operation → List Nat
  | create => []
  | clone emitter => [emitter]
  | record emitter _ => [emitter]
  | pipe emitter => [emitter]
  | forward source target => [source, target]
  | emit emitter _ => [emitter]

/-- The same operation on other emitters. -/
def rename (f : Nat → Nat) : Operation → Operation
  | create => create
  | clone emitter => clone (f emitter)
  | record emitter tag => record (f emitter) tag
  | pipe emitter => pipe (f emitter)
  | forward source target => forward (f source) (f target)
  | emit emitter event => emit (f emitter) event

end Operation

/-- The network after an operation. -/
def perform (n : Network) : Operation → Network
  | .create => n.create
  | .clone emitter => n.clone emitter
  | .record emitter tag => n.subscribe emitter (.recorder tag)
  | .pipe emitter => n.pipe emitter
  | .forward source target => n.forward source target
  | .emit emitter event => n.emit emitter event

/-- The network after several operations. -/
def performAll (n : Network) (ops : List Operation) : Network := ops.foldl perform n

/-- Every operation is about emitters that there are by then. -/
def Known (n : Network) : List Operation → Prop
  | [] => True
  | op :: rest => (∀ emitter ∈ op.emitters, emitter < n.emitters.length) ∧ (n.perform op).Known rest

instance decidableKnown : (n : Network) → (ops : List Operation) → Decidable (n.Known ops)
  | _, [] => isTrue True.intro
  | n, op :: rest =>
    have := decidableKnown (n.perform op) rest
    inferInstanceAs (Decidable (_ ∧ _))

@[simp] theorem performAll_append (n : Network) (ops later : List Operation) :
    n.performAll (ops ++ later) = (n.performAll ops).performAll later :=
  List.foldl_append

theorem performAll_concat (n : Network) (ops : List Operation) (op : Operation) :
    n.performAll (ops ++ [op]) = (n.performAll ops).perform op :=
  performAll_append n ops [op]

theorem Known.of_append {ops later : List Operation} (h : n.Known (ops ++ later)) :
    (n.performAll ops).Known later := by
  induction ops generalizing n with
  | nil => exact h
  | cons op rest ih => exact ih h.2

/-! ## What an operation changes -/

theorem emit_lists (n : Network) (emitter : Nat) (event : ShellEvent) :
    (n.emit emitter event).lists = n.lists ∧ (n.emit emitter event).emitters = n.emitters :=
  receive_lists (n.reached emitter) n [event]

theorem emitters_prefix_perform (n : Network) (op : Operation) :
    n.emitters <+: (n.perform op).emitters := by
  cases op with
  | create => exact List.prefix_append _ _
  | clone emitter => exact List.prefix_append _ _
  | emit emitter event =>
      refine ⟨[], ?_⟩
      rw [List.append_nil, perform, (emit_lists n emitter event).2]
  | _ => exact List.prefix_rfl

/-- An emitter stands for the same list for good. -/
theorem listOf_perform {emitter : Nat} (h : emitter < n.emitters.length) (op : Operation) :
    (n.perform op).listOf emitter = n.listOf emitter := by
  obtain ⟨more, hmore⟩ := n.emitters_prefix_perform op
  rw [listOf, listOf, ← hmore, List.getD_append _ _ _ _ h, List.getD_eq_getElem _ _ h,
    List.getD_eq_getElem _ _ h]

/-- The listener that an operation subscribes, and the list that it joins. -/
def joining? (n : Network) : Operation → Option (Nat × Listener)
  | .record emitter tag => some (n.listOf emitter, .recorder tag)
  | .pipe emitter => some (n.listOf emitter, .pipe n.pipes.length)
  | .forward source target => some (n.listOf source, .forward (n.listOf target))
  | _ => none

theorem listeners_subscribe (n : Network) (emitter : Nat) (l : Listener) (list : Nat) :
    (n.subscribe emitter l).listeners list =
      n.listeners list ++
        if n.listOf emitter = list ∧ list < n.lists.length then [l] else [] := by
  rw [subscribe, listeners, listeners, List.getD_eq_getElem?_getD, List.getD_eq_getElem?_getD,
    List.getElem?_modify]
  by_cases hlist : list < n.lists.length
  · by_cases heq : n.listOf emitter = list
    · simp [hlist, heq]
    · simp [hlist, heq]
  · simp [hlist]

/-- A list keeps its listeners, and the one that joins it goes to its end. -/
theorem listeners_perform (n : Network) (op : Operation) (list : Nat) :
    (n.perform op).listeners list =
      n.listeners list ++
        match n.joining? op with
        | some (other, l) => if other = list ∧ list < n.lists.length then [l] else []
        | none => [] := by
  cases op with
  | create =>
      have hsame : n.create.listeners list = n.listeners list := by
        rw [create, listeners, listeners, List.getD_eq_getElem?_getD, List.getD_eq_getElem?_getD,
          List.getElem?_append]
        split
        · rfl
        · next hle =>
            rw [List.getElem?_eq_none (by omega : n.lists.length ≤ list)]
            cases list - n.lists.length <;> rfl
      rw [perform, hsame]
      exact (List.append_nil _).symm
  | clone emitter => exact (List.append_nil _).symm
  | record emitter tag => exact listeners_subscribe n emitter _ list
  | pipe emitter => exact listeners_subscribe n emitter _ list
  | forward source target => exact listeners_subscribe n source _ list
  | emit emitter event =>
      rw [perform, listeners, (emit_lists n emitter event).1]
      exact (List.append_nil _).symm

theorem listeners_prefix_perform (n : Network) (op : Operation) (list : Nat) :
    n.listeners list <+: (n.perform op).listeners list := by
  rw [listeners_perform]
  exact List.prefix_append _ _

/-- Listeners keep their places. -/
theorem listeners_prefix_performAll (n : Network) (ops : List Operation) (list : Nat) :
    n.listeners list <+: (n.performAll ops).listeners list := by
  induction ops generalizing n with
  | nil => exact List.prefix_rfl
  | cons op rest ih => exact (n.listeners_prefix_perform op list).trans (ih (n.perform op))

/-- A network without circles had none before. -/
theorem Acyclic.of_performAll {ops : List Operation} (h : (n.performAll ops).Acyclic) :
    n.Acyclic := by
  intro list hcircle
  refine h list (Relation.TransGen.mono (fun source target hforward => ?_) _ _ hcircle)
  exact (n.listeners_prefix_performAll ops source).subset hforward

/-! ## Paths and deliveries -/

/-- An event of the first list gets to the last one through the forwardings at these positions, each
in the list that the one before it leads to. -/
inductive Leads (n : Network) : Nat → List Nat → Nat → Prop
  | here (list : Nat) : Leads n list [] list
  | forward {list position target last : Nat} {path : List Nat}
    (hforward : (n.listeners list)[position]? = some (.forward target))
    (hrest : Leads n target path last) : Leads n list (position :: path) last

/-- An event that comes to a listener: along a path to a list, and at a position in it. -/
structure Delivery where
  path : List Nat
  list : Nat
  position : Nat
  listener : Listener
  deriving DecidableEq, Repr

namespace Delivery

/-- The path and then the position. -/
def address (d : Delivery) : List Nat := d.path ++ [d.position]

/-- The same delivery behind one more forwarding, at this position. -/
def behind (position : Nat) (d : Delivery) : Delivery := { d with path := position :: d.path }

/-- A delivery of an event of this list: a path, and at its end a listener that passes nothing
on. -/
structure Due (n : Network) (list : Nat) (d : Delivery) : Prop where
  leads : n.Leads list d.path d.list
  placed : (n.listeners d.list)[d.position]? = some d.listener
  ends : d.listener.passesOn = false

/-- A delivery is to a listener of the list itself, or behind a forwarding of it. -/
theorem due_iff {list : Nat} {d : Delivery} :
    Due n list d ↔
      (d.path = [] ∧ d.list = list ∧ (n.listeners list)[d.position]? = some d.listener ∧
        d.listener.passesOn = false) ∨
      ∃ position target e, (n.listeners list)[position]? = some (.forward target) ∧
        Due n target e ∧ d = behind position e := by
  constructor
  · rintro ⟨hleads, hplaced, hends⟩
    obtain ⟨path, last, position, l⟩ := d
    cases hleads with
    | here => exact Or.inl ⟨rfl, rfl, hplaced, hends⟩
    | forward hforward hrest =>
        exact Or.inr ⟨_, _, ⟨_, last, position, l⟩, hforward, ⟨hrest, hplaced, hends⟩, rfl⟩
  · rintro (⟨hpath, hlist, hplaced, hends⟩ | ⟨position, target, e, hforward, hdue, rfl⟩)
    · refine ⟨?_, hlist ▸ hplaced, hends⟩
      rw [hpath, hlist]
      exact .here list
    · exact ⟨.forward hforward hdue.leads, hdue.placed, hdue.ends⟩

end Delivery

/-- The deliveries through one listener of a list, where `passed` are those in another list. -/
def deliveriesAt (passed : Nat → List Delivery) (list : Nat) (place : Listener × Nat) :
    List Delivery :=
  match place.1 with
  | .forward target => (passed target).map (Delivery.behind place.2)
  | l => [⟨[], list, place.2, l⟩]

/-- The deliveries of an event of a list that is passed on at most `hops` times in a row. -/
def deliveriesWithin (n : Network) : Nat → Nat → List Delivery
  | 0, list => (n.listeners list).zipIdx.flatMap (deliveriesAt (fun _ => []) list)
  | hops + 1, list =>
    (n.listeners list).zipIdx.flatMap (deliveriesAt (n.deliveriesWithin hops) list)

/-- The deliveries of an event of an emitter. -/
def deliveries (n : Network) (emitter : Nat) : List Delivery :=
  n.deliveriesWithin n.lists.length (n.listOf emitter)

variable {passed : Nat → List Delivery} {list : Nat} {d : Delivery}

theorem mem_deliveriesAt :
    d ∈ (n.listeners list).zipIdx.flatMap (deliveriesAt passed list) ↔
      (d.path = [] ∧ d.list = list ∧ (n.listeners list)[d.position]? = some d.listener ∧
        d.listener.passesOn = false) ∨
      ∃ position target e, (n.listeners list)[position]? = some (.forward target) ∧
        e ∈ passed target ∧ d = e.behind position := by
  rw [List.mem_flatMap]
  constructor
  · rintro ⟨⟨l, position⟩, hplace, hd⟩
    have hplaced := List.mem_zipIdx_iff_getElem?.1 hplace
    cases l with
    | forward target =>
        obtain ⟨e, he, rfl⟩ := List.mem_map.1 hd
        exact Or.inr ⟨position, target, e, hplaced, he, rfl⟩
    | recorder tag =>
        obtain rfl := List.mem_singleton.1 hd
        exact Or.inl ⟨rfl, rfl, hplaced, rfl⟩
    | pipe number =>
        obtain rfl := List.mem_singleton.1 hd
        exact Or.inl ⟨rfl, rfl, hplaced, rfl⟩
  · rintro (⟨hpath, hlist, hplaced, hends⟩ | ⟨position, target, e, hforward, he, rfl⟩)
    · refine ⟨(d.listener, d.position), List.mem_zipIdx_iff_getElem?.2 hplaced, ?_⟩
      obtain ⟨path, last, position, l⟩ := d
      obtain rfl := hpath
      obtain rfl := hlist
      cases l with
      | forward target => cases hends
      | _ => exact List.mem_singleton_self _
    · exact ⟨(.forward target, position), List.mem_zipIdx_iff_getElem?.2 hforward,
        List.mem_map_of_mem he⟩

/-- All deliveries over paths of this length are made, and no others. -/
theorem mem_deliveriesWithin {hops : Nat} :
    d ∈ n.deliveriesWithin hops list ↔ d.Due n list ∧ d.path.length ≤ hops := by
  induction hops generalizing list d with
  | zero =>
      rw [deliveriesWithin, mem_deliveriesAt, Delivery.due_iff]
      constructor
      · rintro (hhere | ⟨_, _, _, _, hnone, _⟩)
        · exact ⟨Or.inl hhere, by rw [hhere.1]; exact Nat.le_refl 0⟩
        · cases hnone
      · rintro ⟨hhere | ⟨position, target, e, -, -, rfl⟩, hlength⟩
        · exact Or.inl hhere
        · cases hlength
  | succ hops ih =>
      rw [deliveriesWithin, mem_deliveriesAt, Delivery.due_iff]
      constructor
      · rintro (hhere | ⟨position, target, e, hforward, he, rfl⟩)
        · exact ⟨Or.inl hhere, by rw [hhere.1]; exact Nat.zero_le _⟩
        · obtain ⟨hdue, hlength⟩ := ih.1 he
          exact ⟨Or.inr ⟨position, target, e, hforward, hdue, rfl⟩, Nat.succ_le_succ hlength⟩
      · rintro ⟨hhere | ⟨position, target, e, hforward, hdue, rfl⟩, hlength⟩
        · exact Or.inl hhere
        · exact Or.inr ⟨position, target, e, hforward,
            ih.2 ⟨hdue, Nat.le_of_succ_le_succ hlength⟩, rfl⟩

/-- Without circles, a path to a list goes through fewer forwardings than there are lists. `before`
are the lists that lead to its start. -/
theorem Leads.length_lt (hacyclic : n.Acyclic) {path : List Nat} {last : Nat}
    (h : n.Leads list path last) (hlast : last < n.lists.length) {before : List Nat}
    (hnodup : before.Nodup) (hcame : ∀ l ∈ before, Relation.TransGen n.Forwards l list) :
    before.length + path.length < n.lists.length := by
  induction h generalizing before with
  | here list =>
      have hnew : list ∉ before := fun hmem => hacyclic list (hcame list hmem)
      have hsub : list :: before ⊆ List.range n.lists.length := by
        intro l hl
        rw [List.mem_range]
        rcases List.mem_cons.1 hl with rfl | hl
        · exact hlast
        · obtain ⟨_, hfirst, -⟩ := Relation.TransGen.head'_iff.1 (hcame l hl)
          exact hfirst.lt
      have hle := (List.subperm_of_subset (List.nodup_cons.2 ⟨hnew, hnodup⟩) hsub).length_le
      rw [List.length_cons, List.length_range] at hle
      rw [List.length_nil]
      omega
  | @forward list position target last path hforward hrest ih =>
      have hstep : n.Forwards list target := List.mem_of_getElem? hforward
      have hnew : list ∉ before := fun hmem => hacyclic list (hcame list hmem)
      have hlonger := ih hlast (List.nodup_cons.2 ⟨hnew, hnodup⟩) (fun l hl => by
        rcases List.mem_cons.1 hl with rfl | hl
        · exact .single hstep
        · exact (hcame l hl).tail hstep)
      simp only [List.length_cons] at hlonger ⊢
      omega

/-- Every path to a listener makes one delivery. -/
theorem mem_deliveries (hacyclic : n.Acyclic) {emitter : Nat} :
    d ∈ n.deliveries emitter ↔ d.Due n (n.listOf emitter) := by
  rw [deliveries, mem_deliveriesWithin]
  refine ⟨fun h => h.1, fun hdue => ⟨hdue, ?_⟩⟩
  have hlast : d.list < n.lists.length := by
    by_contra hle
    have hplaced := hdue.placed
    rw [listeners_of_le (by omega)] at hplaced
    cases hplaced
  have hlength := hdue.leads.length_lt hacyclic hlast List.nodup_nil (by simp)
  simp only [List.length_nil, Nat.zero_add] at hlength
  omega

/-! ## The order of deliveries -/

/-- The address of a delivery through a listener begins with its position. -/
theorem address_deliveriesAt {place : Listener × Nat} (h : d ∈ deliveriesAt passed list place) :
    ∃ rest, d.address = place.2 :: rest := by
  obtain ⟨l, position⟩ := place
  cases l with
  | forward target =>
      obtain ⟨e, -, rfl⟩ := List.mem_map.1 h
      exact ⟨e.address, rfl⟩
  | recorder tag =>
      obtain rfl := List.mem_singleton.1 h
      exact ⟨[], rfl⟩
  | pipe number =>
      obtain rfl := List.mem_singleton.1 h
      exact ⟨[], rfl⟩

theorem pairwise_deliveriesAt
    (hpassed : ∀ target, (passed target).Pairwise (fun a b => a.address < b.address)) :
    ((n.listeners list).zipIdx.flatMap (deliveriesAt passed list)).Pairwise
      (fun a b => a.address < b.address) := by
  rw [List.pairwise_flatMap]
  constructor
  · rintro ⟨l, position⟩ -
    cases l with
    | forward target =>
        refine List.pairwise_map.2 ((hpassed target).imp (fun {a b} hlt => ?_))
        exact List.cons_lt_cons_iff.2 (Or.inr ⟨rfl, hlt⟩)
    | recorder tag => exact List.pairwise_singleton _ _
    | pipe number => exact List.pairwise_singleton _ _
  · have hpositions : ((n.listeners list).zipIdx.map Prod.snd).Pairwise (· < ·) := by
      rw [List.zipIdx_map_snd]
      exact List.pairwise_lt_range'
    refine (List.pairwise_map.1 hpositions).imp (fun {a b} hlt d hd e he => ?_)
    obtain ⟨_, hfirst⟩ := address_deliveriesAt hd
    obtain ⟨_, hsecond⟩ := address_deliveriesAt he
    rw [hfirst, hsecond]
    exact List.cons_lt_cons_iff.2 (Or.inl hlt)

/-- Deliveries are made in the order of their addresses, and each once. -/
theorem pairwise_deliveriesWithin (n : Network) (hops list : Nat) :
    (n.deliveriesWithin hops list).Pairwise (fun a b => a.address < b.address) := by
  induction hops generalizing list with
  | zero => exact pairwise_deliveriesAt (fun _ => List.Pairwise.nil)
  | succ hops ih => exact pairwise_deliveriesAt ih

theorem pairwise_deliveries (n : Network) (emitter : Nat) :
    (n.deliveries emitter).Pairwise (fun a b => a.address < b.address) :=
  n.pairwise_deliveriesWithin _ _

theorem map_listener_deliveriesAt (passed : Nat → List Delivery) (list : Nat) (ls : List Listener) :
    (ls.zipIdx.flatMap (deliveriesAt passed list)).map Delivery.listener =
      ls.flatMap (fun l => match l with
        | .forward target => (passed target).map Delivery.listener
        | other => [other]) := by
  conv_rhs => rw [← List.zipIdx_map_fst 0 ls, List.flatMap_map]
  rw [List.map_flatMap]
  refine List.flatMap_congr (fun place _ => ?_)
  obtain ⟨l, position⟩ := place
  cases l with
  | forward target => simp [deliveriesAt, Delivery.behind, Function.comp_def]
  | _ => rfl

/-- The listeners that an event reaches are those that it is delivered to. -/
theorem map_listener_deliveriesWithin (n : Network) (hops list : Nat) :
    (n.deliveriesWithin hops list).map Delivery.listener = n.reachedWithin hops list := by
  induction hops generalizing list with
  | zero =>
      rw [deliveriesWithin, map_listener_deliveriesAt, reachedWithin]
      induction n.listeners list with
      | nil => rfl
      | cons l rest ih => cases l <;> simpa using ih
  | succ hops ih =>
      rw [deliveriesWithin, map_listener_deliveriesAt, reachedWithin]
      refine List.flatMap_congr (fun l _ => ?_)
      cases l with
      | forward target => exact ih target
      | _ => rfl

theorem map_listener_deliveries (n : Network) (emitter : Nat) :
    (n.deliveries emitter).map Delivery.listener = n.reached emitter :=
  n.map_listener_deliveriesWithin _ _

/-! ## What one emission adds -/

/-- What a delivery puts on record. -/
def Delivery.record? (event : ShellEvent) (d : Delivery) : Option String :=
  match d.listener with
  | .recorder tag => some (tag ++ ":" ++ event.kind)
  | _ => none

theorem records_emit (n : Network) (emitter : Nat) (event : ShellEvent) :
    (n.emit emitter event).records =
      n.records ++ (n.deliveries emitter).filterMap (Delivery.record? event) := by
  rw [emit, ← map_listener_deliveries]
  generalize n.deliveries emitter = ds
  induction ds generalizing n with
  | nil => exact (List.append_nil _).symm
  | cons d rest ih =>
      rw [List.map_cons, List.foldl_cons, ih]
      cases hlistener : d.listener <;> simp [deliver, Delivery.record?, hlistener]

/-- The events that a stream gets in an emission. -/
theorem pipes_emit (n : Network) (emitter : Nat) (event : ShellEvent) (number : Nat) :
    (n.emit emitter event).pipes[number]? =
      n.pipes[number]?.map (fun stream => stream.writeAll
        (List.replicate ((n.reached emitter).count (.pipe number)) event)) := by
  rw [emit]
  generalize n.reached emitter = ends
  induction ends generalizing n with
  | nil => simp [Pipe.writeAll]
  | cons l rest ih =>
      rw [List.foldl_cons, ih]
      cases l with
      | pipe other =>
          by_cases hsame : other = number
          · subst hsame
            rw [List.count_cons_self, List.replicate_succ]
            simp only [deliver, List.getElem?_modify, Option.map_eq_map, Option.map_map]
            rfl
          · rw [List.count_cons_of_ne (by simpa using hsame)]
            simp [deliver, hsame]
      | _ => rw [List.count_cons_of_ne (by simp)]; rfl

/-! ## What listeners have got -/

/-- An event that is emitted, and the network at that time. -/
structure Emission where
  network : Network
  emitter : Nat
  event : ShellEvent

/-- The deliveries of an emission. -/
def Emission.deliveries (e : Emission) : List Delivery := e.network.deliveries e.emitter

/-- The emission that an operation is. -/
def emission? (n : Network) : Operation → Option Emission
  | .emit emitter event => some ⟨n, emitter, event⟩
  | _ => none

/-- The emissions of a run, in order. -/
def emissions (n : Network) : List Operation → List Emission
  | [] => []
  | op :: rest => (n.emission? op).toList ++ (n.perform op).emissions rest

/-- What the listener at a place gets: each event as often as it is delivered there. -/
def received (list position : Nat) (es : List Emission) : List ShellEvent :=
  es.flatMap (fun e =>
    List.replicate (e.deliveries.countP (fun d => d.list = list ∧ d.position = position)) e.event)

theorem emissions_append (n : Network) (ops later : List Operation) :
    n.emissions (ops ++ later) = n.emissions ops ++ (n.performAll ops).emissions later := by
  induction ops generalizing n with
  | nil => rfl
  | cons op rest ih =>
      rw [List.cons_append, emissions, ih, emissions, List.append_assoc]
      rfl

theorem emissions_concat (n : Network) (ops : List Operation) (op : Operation) :
    n.emissions (ops ++ [op]) = n.emissions ops ++ ((n.performAll ops).emission? op).toList := by
  rw [emissions_append, emissions, emissions, List.append_nil]

/-- An emission is an operation of the run, at its time. -/
theorem mem_emissions {ops : List Operation} {e : Emission} (h : e ∈ n.emissions ops) :
    ∃ past rest, ops = past ++ .emit e.emitter e.event :: rest ∧ e.network = n.performAll past := by
  induction ops generalizing n with
  | nil => cases h
  | cons op rest ih =>
      rcases List.mem_append.1 h with hnow | hlater
      · cases op with
        | emit emitter event =>
            obtain rfl := List.mem_singleton.1 hnow
            exact ⟨[], rest, rfl, rfl⟩
        | _ => cases hnow
      · obtain ⟨past, later, rfl, hnetwork⟩ := ih hlater
        exact ⟨op :: past, later, rfl, hnetwork⟩

/-- What is on record is what the emissions have put there, in order. -/
theorem records_performAll (n : Network) (ops : List Operation) :
    (n.performAll ops).records =
      n.records ++
        (n.emissions ops).flatMap (fun e => e.deliveries.filterMap (Delivery.record? e.event)) := by
  induction ops generalizing n with
  | nil => exact (List.append_nil _).symm
  | cons op rest ih =>
      have hop : (n.perform op).records = n.records ++
          (n.emission? op).toList.flatMap
            (fun e => e.deliveries.filterMap (Delivery.record? e.event)) := by
        cases op with
        | emit emitter event =>
            rw [perform, records_emit]
            exact congrArg _ (List.append_nil _).symm
        | _ => exact (List.append_nil _).symm
      rw [emissions, List.flatMap_append, ← List.append_assoc, ← hop, ← ih]
      rfl

/-- A listener gets nothing that was emitted before it had its place. -/
theorem received_eq_nil {ops : List Operation} {position : Nat}
    (h : ((n.performAll ops).listeners list).length ≤ position) :
    received list position (n.emissions ops) = [] := by
  refine List.flatMap_eq_nil_iff.2 (fun e he => ?_)
  obtain ⟨past, rest, rfl, hnetwork⟩ := mem_emissions he
  have hnone : e.deliveries.countP (fun d => d.list = list ∧ d.position = position) = 0 := by
    rw [List.countP_eq_zero]
    intro d hd hplace
    obtain ⟨rfl, rfl⟩ := of_decide_eq_true hplace
    obtain ⟨hlt, -⟩ := List.getElem?_eq_some_iff.1 (mem_deliveriesWithin.1 hd).1.placed
    have hgrows := ((n.performAll past).listeners_prefix_performAll (.emit e.emitter e.event :: rest)
      d.list).length_le
    rw [hnetwork] at hlt
    rw [performAll_append] at h
    omega
  rw [hnone, List.replicate_zero]

/-! ## Streams -/

/-- Every stream is at one place, and holds what was received there. -/
structure Streaming (n : Network) (es : List Emission) : Prop where
  apart : ∀ {list position other place number : Nat},
    (n.listeners list)[position]? = some (.pipe number) →
    (n.listeners other)[place]? = some (.pipe number) → list = other ∧ position = place
  holds : ∀ {list position number : Nat}, (n.listeners list)[position]? = some (.pipe number) →
    n.pipes[number]? = some (Pipe.empty.writeAll (received list position es))

theorem Streaming.number_lt {es : List Emission} (h : n.Streaming es) {list position number : Nat}
    (hplaced : (n.listeners list)[position]? = some (.pipe number)) : number < n.pipes.length := by
  obtain ⟨hlt, -⟩ := List.getElem?_eq_some_iff.1 (h.holds hplaced)
  exact hlt

/-- A place of a stream after an operation is one from before, or that of the stream that is new. -/
theorem placed_perform {op : Operation} {position number : Nat}
    (h : ((n.perform op).listeners list)[position]? = some (.pipe number)) :
    (n.listeners list)[position]? = some (.pipe number) ∨
      ∃ emitter, op = .pipe emitter ∧ n.listOf emitter = list ∧
        position = (n.listeners list).length ∧ number = n.pipes.length := by
  rw [listeners_perform] at h
  by_cases hold : position < (n.listeners list).length
  · rw [List.getElem?_append_left hold] at h
    exact Or.inl h
  · rw [List.getElem?_append_right (by omega)] at h
    obtain ⟨hlt, -⟩ := List.getElem?_eq_some_iff.1 h
    cases op with
    | pipe emitter =>
        simp only [joining?] at h hlt
        split at h
        · next hjoins =>
            rw [if_pos hjoins, List.length_singleton] at hlt
            have hposition : position = (n.listeners list).length := by omega
            have hnumber : n.pipes.length = number := by simpa [hposition] using h
            exact Or.inr ⟨emitter, rfl, hjoins.1, hposition, hnumber.symm⟩
        · cases h
    | create => cases h
    | clone emitter => cases h
    | emit emitter event => cases h
    | record emitter tag =>
        simp only [joining?] at h
        split at h
        · cases hindex : position - (n.listeners list).length <;> simp [hindex] at h
        · cases h
    | forward source target =>
        simp only [joining?] at h
        split at h
        · cases hindex : position - (n.listeners list).length <;> simp [hindex] at h
        · cases h

/-- The deliveries at the place of a stream are those to the stream. -/
theorem Streaming.count_reached {es : List Emission} (h : n.Streaming es)
    {list position number : Nat}
    (hplaced : (n.listeners list)[position]? = some (.pipe number)) (emitter : Nat) :
    (n.reached emitter).count (.pipe number) =
      (n.deliveries emitter).countP (fun d => d.list = list ∧ d.position = position) := by
  rw [← map_listener_deliveries, List.count, List.countP_map]
  refine List.countP_congr (fun d hd => ?_)
  have hthere := (mem_deliveriesWithin.1 hd).1.placed
  simp only [Function.comp_apply, beq_iff_eq, decide_eq_true_eq]
  constructor
  · intro hlistener
    rw [hlistener] at hthere
    exact h.apart hthere hplaced
  · rintro ⟨rfl, rfl⟩
    exact Option.some.inj (hthere.symm.trans hplaced)

theorem received_append (list position : Nat) (es later : List Emission) :
    received list position (es ++ later) =
      received list position es ++ received list position later :=
  List.flatMap_append

theorem writeAll_append (stream : Pipe) (events later : List ShellEvent) :
    stream.writeAll (events ++ later) = (stream.writeAll events).writeAll later :=
  List.foldl_append

/-- A stream that there was before gets what the operation emits, as often as it is received. -/
theorem Streaming.pipes_perform {es : List Emission} (h : n.Streaming es) (op : Operation)
    {list position number : Nat}
    (hold : (n.listeners list)[position]? = some (.pipe number)) :
    (n.perform op).pipes[number]? = some (Pipe.empty.writeAll
      (received list position (es ++ (n.emission? op).toList))) := by
  have hholds := h.holds hold
  cases op with
  | emit emitter event =>
      rw [Network.perform, pipes_emit, hholds, Option.map_some, received_append, writeAll_append,
        h.count_reached hold emitter]
      simp [received, emission?, Emission.deliveries]
  | pipe emitter =>
      rw [Network.perform, pipe]
      dsimp only
      rw [List.getElem?_append_left (h.number_lt hold), hholds]
      exact congrArg (fun es => some (Pipe.empty.writeAll (received list position es)))
        (List.append_nil es).symm
  | _ =>
      refine hholds.trans ?_
      exact congrArg (fun es => some (Pipe.empty.writeAll (received list position es)))
        (List.append_nil es).symm

/-- One operation more. -/
theorem Streaming.perform {es : List Emission} (h : n.Streaming es) (op : Operation)
    (hnew : ∀ list, received list (n.listeners list).length es = []) :
    (n.perform op).Streaming (es ++ (n.emission? op).toList) := by
  constructor
  · intro list position other place number hplaced hplaced'
    rcases placed_perform hplaced with hold | ⟨emitter, rfl, rfl, rfl, rfl⟩
    · rcases placed_perform hplaced' with hold' | ⟨emitter, rfl, rfl, rfl, rfl⟩
      · exact h.apart hold hold'
      · exact absurd (h.number_lt hold) (Nat.lt_irrefl _)
    · rcases placed_perform hplaced' with hold' | ⟨_, hsame, hlist, hplace, -⟩
      · exact absurd (h.number_lt hold') (Nat.lt_irrefl _)
      · obtain rfl := Operation.pipe.inj hsame
        rw [hplace, hlist]
        exact ⟨rfl, rfl⟩
  · intro list position number hplaced
    rcases placed_perform hplaced with hold | ⟨emitter, rfl, rfl, rfl, rfl⟩
    · exact h.pipes_perform op hold
    · have hnone := hnew (n.listOf emitter)
      have hlast : (n.perform (.pipe emitter)).pipes[n.pipes.length]? = some Pipe.empty := by
        simp [Network.perform, pipe]
      rw [hlast, received_append, hnone]
      rfl

/-- From no emitters on, streams hold what is received at their places. -/
theorem streaming_performAll (ops : List Operation) :
    (empty.performAll ops).Streaming (empty.emissions ops) := by
  induction ops using List.reverseRecOn with
  | nil =>
      constructor
      · intro list position other place number hplaced
        simp [performAll, empty, listeners] at hplaced
      · intro list position number hplaced
        simp [performAll, empty, listeners] at hplaced
  | append_singleton ops op ih =>
      rw [performAll_concat, emissions_concat]
      exact ih.perform op (fun list => received_eq_nil (Nat.le_refl _))

/-! ## Clones -/

/-- An operation sees of an emitter only the list that it stands for. -/
theorem perform_rename {f : Nat → Nat} {op : Operation}
    (h : ∀ emitter ∈ op.emitters, n.listOf (f emitter) = n.listOf emitter) :
    n.perform (op.rename f) = n.perform op := by
  cases op with
  | create => rfl
  | clone emitter =>
      simp only [Operation.rename, perform, clone, h emitter (by simp [Operation.emitters])]
  | record emitter tag =>
      simp only [Operation.rename, perform, subscribe, h emitter (by simp [Operation.emitters])]
  | pipe emitter =>
      simp only [Operation.rename, perform, pipe, subscribe,
        h emitter (by simp [Operation.emitters])]
  | forward source target =>
      simp only [Operation.rename, perform, forward, subscribe,
        h source (by simp [Operation.emitters]), h target (by simp [Operation.emitters])]
  | emit emitter event =>
      simp only [Operation.rename, perform, emit, reached, h emitter (by simp [Operation.emitters])]

/-- Two emitters that stand for one list can stand for each other in a whole run. -/
theorem performAll_rename {original copy : Nat} (hcopy : copy < n.emitters.length)
    (horiginal : original < n.emitters.length) (hsame : n.listOf copy = n.listOf original)
    (ops : List Operation) :
    n.performAll (ops.map (Operation.rename (Function.update id copy original))) =
      n.performAll ops := by
  induction ops generalizing n with
  | nil => rfl
  | cons op rest ih =>
      have hop : n.perform (op.rename (Function.update id copy original)) = n.perform op := by
        refine perform_rename (fun emitter _ => ?_)
        by_cases heq : emitter = copy
        · rw [heq, Function.update_self, hsame]
        · rw [Function.update_of_ne heq, id]
      have hgrows := (n.emitters_prefix_perform op).length_le
      have hrest := ih (n := n.perform op) (by omega) (by omega)
        (by rw [listOf_perform hcopy, listOf_perform horiginal, hsame])
      rw [List.map_cons, performAll, List.foldl_cons, hop]
      exact hrest

/-- From the clone on, the new emitter can stand for its original. -/
theorem performAll_clone {original : Nat} (h : original < n.emitters.length)
    (ops : List Operation) :
    (n.clone original).performAll
        (ops.map (Operation.rename (Function.update id n.emitters.length original))) =
      (n.clone original).performAll ops := by
  have hlength : (n.clone original).emitters.length = n.emitters.length + 1 := by
    simp [clone]
  have hsame : (n.clone original).listOf n.emitters.length =
      (n.clone original).listOf original := by
    rw [show n.clone original = n.perform (.clone original) from rfl, listOf_perform h]
    simp [perform, clone, listOf]
  exact performAll_rename (by omega) (by omega) hsame ops

/-! ## A run -/

/-- Any run of operations in which no circle is made.

Each event that is emitted is delivered once along every path that leads, at that time, to the list
of a listener, in the order of the addresses. What recorders put on record, and what a stream holds,
is what is delivered, emission after emission. Listeners keep their places, and before a place is
taken nothing is received there. A clone can be used for its original, or the original for the
clone, with no difference to the network. -/
theorem delivery_per_path (ops : List Operation) (hknown : empty.Known ops)
    (hacyclic : (empty.performAll ops).Acyclic) :
    let n := empty.performAll ops
    let es := empty.emissions ops
    (∀ e ∈ es, (∀ d, d ∈ e.deliveries ↔ d.Due e.network (e.network.listOf e.emitter)) ∧
      e.deliveries.Pairwise (fun a b => a.address < b.address)) ∧
    n.records = es.flatMap (fun e => e.deliveries.filterMap (Delivery.record? e.event)) ∧
    (∀ list position number, (n.listeners list)[position]? = some (.pipe number) →
      n.pipes[number]? = some (Pipe.empty.writeAll (received list position es))) ∧
    (∀ past rest, ops = past ++ rest → ∀ list,
      (empty.performAll past).listeners list <+: n.listeners list ∧
      ∀ position, ((empty.performAll past).listeners list).length ≤ position →
        received list position (empty.emissions past) = []) ∧
    ∀ past original rest, ops = past ++ .clone original :: rest →
      let merge := Operation.rename
        (Function.update id (empty.performAll past).emitters.length original)
      ∀ others : List Operation, others.map merge = rest.map merge →
        empty.performAll (past ++ .clone original :: others) = n := by
  intro n es
  refine ⟨fun e he => ⟨fun d => ?_, e.network.pairwise_deliveries e.emitter⟩, ?_, ?_, ?_, ?_⟩
  · obtain ⟨past, rest, rfl, hnetwork⟩ := mem_emissions he
    have hbefore : (empty.performAll past).Acyclic :=
      Acyclic.of_performAll (performAll_append _ past _ ▸ hacyclic)
    exact mem_deliveries (hnetwork ▸ hbefore)
  · exact records_performAll empty ops
  · intro list position number hplaced
    exact (streaming_performAll ops).holds hplaced
  · rintro past rest rfl list
    refine ⟨?_, fun position hlength => received_eq_nil hlength⟩
    have hgrows := (empty.performAll past).listeners_prefix_performAll rest list
    rw [← performAll_append] at hgrows
    exact hgrows
  · rintro past original rest rfl merge others hmerged
    have horiginal : original < (empty.performAll past).emitters.length :=
      hknown.of_append.1 original (List.mem_singleton_self _)
    have hruns : ∀ later, empty.performAll (past ++ .clone original :: later) =
        ((empty.performAll past).clone original).performAll later :=
      fun later => performAll_append _ past (.clone original :: later)
    rw [hruns, ← performAll_clone horiginal, hmerged, performAll_clone horiginal, ← hruns]

/-- Forwardings that all lead to later lists make no circle. -/
theorem acyclic_of_lt (h : ∀ list target, n.Forwards list target → list < target) : n.Acyclic := by
  intro list hcircle
  have hlt : ∀ {source target : Nat}, Relation.TransGen n.Forwards source target →
      source < target := by
    intro source target hpath
    induction hpath with
    | single hstep => exact h _ _ hstep
    | tail _ hstep ih => exact Nat.lt_trans ih (h _ _ hstep)
  exact Nat.lt_irrefl list (hlt hcircle)

/-- Two ways from the first emitter to the third, and a clone of the first one. -/
def twoWays : List Operation :=
  [.create, .create, .create, .record 2 "end", .forward 0 1, .record 0 "top", .forward 0 2,
    .forward 1 2, .clone 0, .emit 3 (.message "text"), .pipe 2, .emit 0 (.data [104])]

/-- The recorder of the third emitter is called first and last, and the stream gets the data
twice. -/
theorem delivery_per_path_sample :
    let n := empty.performAll twoWays
    empty.Known twoWays ∧ n.Acyclic ∧
    n.records =
      ["end:message", "top:message", "end:message", "end:data", "top:data", "end:data"] ∧
    n.pipes[0]? = some (Pipe.empty.writeAll [.data [104], .data [104]]) ∧
    empty.performAll (twoWays.take 9 ++ [.emit 0 (.message "text"), .pipe 2,
      .emit 3 (.data [104])]) = n := by
  intro n
  have hknown : empty.Known twoWays := by decide
  have hlists : n.lists =
      [[.forward 1, .recorder "top", .forward 2], [.forward 2], [.recorder "end", .pipe 0]] := by
    decide
  have hacyclic : n.Acyclic := by
    refine acyclic_of_lt (fun list target hforward => ?_)
    rw [Forwards, listeners, hlists] at hforward
    obtain _ | _ | _ | list := list
    · rcases List.mem_cons.1 hforward with h | h <;> simp_all
    · simp_all
    · simp at hforward
    · simp at hforward
  obtain ⟨-, hrecords, hstreams, -, hclones⟩ := delivery_per_path twoWays hknown hacyclic
  refine ⟨hknown, hacyclic, ?_, ?_, ?_⟩
  · rw [hrecords]
    decide
  · rw [hstreams 2 1 0 (by decide)]
    decide
  · exact hclones (twoWays.take 8) 0 (twoWays.drop 9) rfl _ (by decide)

end Network

end ScriptRunner

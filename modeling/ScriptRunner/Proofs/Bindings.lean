import ScriptRunner.Bindings

/-!
# ScriptRunner.Proofs.Bindings

What a map looks like after several entries were bound in it: a name has the value of its
last entry (`Bindings.lookup_bindAll`). The entries of a map itself have each name at most
once, so there the last entry is the only one (`Bindings.lastIn_entries`).

Maps that agree apart from one name (`Bindings.SameApart`) stay so under the same bindings.
Changing every value (`Bindings.map`) goes along with looking up and with binding.
-/

namespace ScriptRunner.Bindings

variable {α : Type u}

/-- The value of the last entry of `name`. -/
def lastIn (name : String) (es : List (String × α)) : Option α :=
  ((es.filter (fun e => e.1 == name)).getLast?).map Prod.snd

/-- An entry counts where no later one of its name follows. -/
theorem lastIn_cons (name : String) (e : String × α) (es : List (String × α)) :
    lastIn name (e :: es) = (lastIn name es).or (if e.1 = name then some e.2 else none) := by
  unfold lastIn
  by_cases h : e.1 = name
  · rw [List.filter_cons_of_pos (by simp [h]), if_pos h, List.getLast?_cons]
    cases (es.filter (fun e => e.1 == name)).getLast? with
    | none => rfl
    | some last => rfl
  · rw [List.filter_cons_of_neg (by simp [h]), if_neg h, Option.or_none]

/-- After several entries were bound, a name has the value of its last one, or else its
earlier value. -/
theorem lookup_bindAll (m : Bindings α) (es : List (String × α)) (name : String) :
    (m.bindAll es).lookup name = (lastIn name es).or (m.lookup name) := by
  induction es generalizing m with
  | nil => rfl
  | cons e rest ih =>
      have hstep : m.bindAll (e :: rest) = (m.bind e.1 e.2).bindAll rest := rfl
      rw [hstep, ih, lastIn_cons, lookup_bind, Option.or_assoc]
      congr 1
      split <;> rfl

theorem lookup_ofList (es : List (String × α)) (name : String) :
    (ofList es).lookup name = lastIn name es := by
  rw [ofList, lookup_bindAll, lookup_empty, Option.or_none]

/-- Among entries that ascend by name, the last one of a name is the first one. -/
theorem lastIn_eq_lookupIn {es : List (String × α)}
    (h : es.Pairwise (fun a b => nameLt a.1 b.1)) (name : String) :
    lastIn name es = lookupIn name es := by
  induction es with
  | nil => rfl
  | cons e rest ih =>
      obtain ⟨hfirst, hrest⟩ := List.pairwise_cons.1 h
      rw [lastIn_cons, ih hrest]
      by_cases hname : e.1 = name
      · subst hname
        rw [lookupIn_eq_none_of_lt hfirst, if_pos rfl, Option.none_or]
        simp [lookupIn]
      · rw [if_neg hname, Option.or_none]
        simp [lookupIn, hname]

/-- The entries of a map hold what is looked up in it. -/
theorem lastIn_entries (m : Bindings α) (name : String) :
    lastIn name m.entries = m.lookup name :=
  lastIn_eq_lookupIn m.ascending name

/-- Entries that are left out by their name are missing under that name and no other. -/
theorem lastIn_filter (p : String → Bool) (name : String) (es : List (String × α)) :
    lastIn name (es.filter (fun e => p e.1)) = if p name then lastIn name es else none := by
  induction es with
  | nil => simp [lastIn]
  | cons e rest ih =>
      by_cases hname : e.1 = name
      · by_cases hp : p name = true
        · rw [List.filter_cons_of_pos (by simp [hname, hp]), lastIn_cons, lastIn_cons, ih]
          simp [hp]
        · rw [List.filter_cons_of_neg (by simp [hname, hp]), ih]
          simp [hp]
      · rw [lastIn_cons name e rest, if_neg hname, Option.or_none, ← ih, List.filter_cons]
        split
        · rw [lastIn_cons, if_neg hname, Option.or_none]
        · rfl

theorem lastIn_map {β : Type v} (f : α → β) (name : String) (es : List (String × α)) :
    lastIn name (es.map (fun e => (e.1, f e.2))) = (lastIn name es).map f := by
  induction es with
  | nil => rfl
  | cons e rest ih =>
      rw [List.map_cons, lastIn_cons, lastIn_cons, ih, Option.map_or]
      split <;> rfl

theorem lookup_overlay (m delta : Bindings α) (name : String) :
    (m.overlay delta).lookup name = (delta.lookup name).or (m.lookup name) := by
  rw [overlay, lookup_bindAll, lastIn_entries]

/-! ## Maps that agree apart from one name -/

/-- The maps agree on every other name. -/
def SameApart (name : String) (m n : Bindings α) : Prop :=
  ∀ other, other ≠ name → m.lookup other = n.lookup other

theorem SameApart.refl (name : String) (m : Bindings α) : m.SameApart name m :=
  fun _ _ => rfl

variable {name : String} {m n : Bindings α}

/-- Binding the name itself makes no difference. -/
theorem SameApart.bind_left (h : m.SameApart name n) (value : α) :
    (m.bind name value).SameApart name n :=
  fun other hother => (lookup_bind_of_ne m value hother.symm).trans (h other hother)

/-- The same entries over both maps make no difference. -/
theorem SameApart.overlay (h : m.SameApart name n) (delta : Bindings α) :
    (m.overlay delta).SameApart name (n.overlay delta) := by
  intro other hother
  rw [lookup_overlay, lookup_overlay, h other hother]

/-! ## Other values -/

variable {β : Type v}

/-- The map with every value changed. -/
def map (f : α → β) (m : Bindings α) : Bindings β :=
  ⟨m.entries.map (fun e => (e.1, f e.2)), List.pairwise_map.2 m.ascending⟩

theorem lookup_map (f : α → β) (m : Bindings α) (name : String) :
    (m.map f).lookup name = (m.lookup name).map f := by
  obtain ⟨entries, ascending⟩ := m
  simp only [lookup, map]
  clear ascending
  induction entries with
  | nil => rfl
  | cons e rest ih =>
      by_cases hname : e.1 = name
      · simp [lookupIn, hname]
      · simp [lookupIn, hname, ih]

theorem map_bind (f : α → β) (m : Bindings α) (name : String) (value : α) :
    (m.bind name value).map f = (m.map f).bind name (f value) := by
  refine ext_lookup (fun other => ?_)
  rw [lookup_map, lookup_bind, lookup_bind, lookup_map]
  split <;> rfl

end ScriptRunner.Bindings

/-!
# ScriptRunner.Bindings

Finite maps from names to values, in the order of the names.

A map is its list of entries, strictly ascending by name, so two maps with the same
look-ups are the same map (`Bindings.ext_lookup`), and walking over a map always
meets its names in ascending order. Names compare by their characters.
-/

namespace ScriptRunner

/-- Whether a text comes before another: character by character, a proper beginning first. -/
def charsLt : List Char → List Char → Bool
  | _, [] => false
  | [], _ :: _ => true
  | a :: as, b :: bs => a.toNat < b.toNat || (a == b && charsLt as bs)

/-- Names in ascending order. -/
def nameLt (a b : String) : Prop := charsLt a.toList b.toList = true

instance (a b : String) : Decidable (nameLt a b) :=
  inferInstanceAs (Decidable (charsLt a.toList b.toList = true))

theorem charsLt_irrefl (a : List Char) : charsLt a a = false := by
  induction a with
  | nil => rfl
  | cons c cs ih => simp [charsLt, ih]

theorem charsLt_trans {a b c : List Char} (h₁ : charsLt a b = true) (h₂ : charsLt b c = true) :
    charsLt a c = true := by
  induction a generalizing b c with
  | nil =>
    cases c with
    | nil => cases b <;> simp [charsLt] at h₂
    | cons => rfl
  | cons x xs ih =>
    cases b with
    | nil => simp [charsLt] at h₁
    | cons y ys =>
      cases c with
      | nil => simp [charsLt] at h₂
      | cons z zs =>
        simp only [charsLt, Bool.or_eq_true, decide_eq_true_eq, Bool.and_eq_true, beq_iff_eq] at *
        rcases h₁ with hxy | ⟨rfl, hxy⟩ <;> rcases h₂ with hyz | ⟨rfl, hyz⟩
        · exact Or.inl (Nat.lt_trans hxy hyz)
        · exact Or.inl hxy
        · exact Or.inl hyz
        · exact Or.inr ⟨rfl, ih hxy hyz⟩

theorem charsLt_total {a b : List Char} (h : charsLt a b = false) (hne : a ≠ b) :
    charsLt b a = true := by
  induction a generalizing b with
  | nil =>
    cases b with
    | nil => exact absurd rfl hne
    | cons => simp [charsLt] at h
  | cons x xs ih =>
    cases b with
    | nil => rfl
    | cons y ys =>
      simp only [charsLt, Bool.or_eq_false_iff, decide_eq_false_iff_not, Nat.not_lt] at h
      simp only [charsLt, Bool.or_eq_true, decide_eq_true_eq, Bool.and_eq_true, beq_iff_eq]
      by_cases hxy : x = y
      · subst hxy
        have hrest : charsLt xs ys = false := by simpa using h.2
        exact Or.inr ⟨rfl, ih hrest (fun heq => hne (by rw [heq]))⟩
      · refine Or.inl (Nat.lt_of_le_of_ne h.1 (fun heq => hxy ?_))
        exact Char.ext (UInt32.toNat_inj.1 heq.symm)

theorem nameLt_irrefl (a : String) : ¬ nameLt a a := by
  simp [nameLt, charsLt_irrefl]

theorem nameLt_trans {a b c : String} (h₁ : nameLt a b) (h₂ : nameLt b c) : nameLt a c :=
  charsLt_trans h₁ h₂

theorem nameLt_of_not_nameLt {a b : String} (h : ¬ nameLt a b) (hne : a ≠ b) : nameLt b a :=
  charsLt_total (Bool.eq_false_iff.2 h) (fun heq => hne (String.toList_inj.1 heq))

/-- A finite map from names to values. -/
structure Bindings (α : Type u) where
  /-- The entries, ascending by name. -/
  entries : List (String × α)
  /-- No name occurs twice, and the names ascend. -/
  ascending : entries.Pairwise (fun a b => nameLt a.1 b.1)

namespace Bindings

variable {α : Type u}

/-- The map without entries. -/
def empty : Bindings α :=
  ⟨[], List.Pairwise.nil⟩

instance : EmptyCollection (Bindings α) := ⟨empty⟩

instance : Inhabited (Bindings α) := ⟨empty⟩

instance [DecidableEq α] : DecidableEq (Bindings α) := fun a b =>
  if h : a.entries = b.entries then
    isTrue (by cases a; cases b; cases h; rfl)
  else
    isFalse (fun heq => h (congrArg entries heq))

/-- The value of `name` in a list of entries. -/
def lookupIn (name : String) : List (String × α) → Option α
  | [] => none
  | (n, v) :: rest => if n = name then some v else lookupIn name rest

/-- The value bound to `name`, if any. -/
def lookup (m : Bindings α) (name : String) : Option α :=
  lookupIn name m.entries

/-- The entries with `name` bound to `value`, at its place in the order. -/
def insertInto (name : String) (value : α) : List (String × α) → List (String × α)
  | [] => [(name, value)]
  | (n, v) :: rest =>
    if n = name then (name, value) :: rest
    else if nameLt name n then (name, value) :: (n, v) :: rest
    else (n, v) :: insertInto name value rest

theorem fst_of_mem_insertInto {name : String} {value : α} {es : List (String × α)}
    {e : String × α} (h : e ∈ insertInto name value es) : e.1 = name ∨ e ∈ es := by
  induction es with
  | nil => simp [insertInto] at h; exact Or.inl (by rw [h])
  | cons a rest ih =>
    obtain ⟨n, v⟩ := a
    simp only [insertInto] at h
    split at h
    · rcases List.mem_cons.1 h with rfl | h'
      · exact Or.inl rfl
      · exact Or.inr (List.mem_cons_of_mem _ h')
    · split at h
      · rcases List.mem_cons.1 h with rfl | h'
        · exact Or.inl rfl
        · exact Or.inr h'
      · rcases List.mem_cons.1 h with rfl | h'
        · exact Or.inr (List.mem_cons_self ..)
        · rcases ih h' with h'' | h''
          · exact Or.inl h''
          · exact Or.inr (List.mem_cons_of_mem _ h'')

theorem ascending_insertInto {name : String} {value : α} {es : List (String × α)}
    (h : es.Pairwise (fun a b => nameLt a.1 b.1)) :
    (insertInto name value es).Pairwise (fun a b => nameLt a.1 b.1) := by
  induction es with
  | nil => simp [insertInto]
  | cons a rest ih =>
    obtain ⟨n, v⟩ := a
    obtain ⟨hhead, htail⟩ := List.pairwise_cons.1 h
    simp only [insertInto]
    split
    · next heq =>
      subst heq
      exact List.pairwise_cons.2 ⟨hhead, htail⟩
    · next hne =>
      split
      · next hlt =>
        refine List.pairwise_cons.2 ⟨?_, h⟩
        intro e he
        rcases List.mem_cons.1 he with rfl | he'
        · exact hlt
        · exact nameLt_trans hlt (hhead e he')
      · next hnlt =>
        refine List.pairwise_cons.2 ⟨?_, ih htail⟩
        intro e he
        rcases fst_of_mem_insertInto he with heq | hmem
        · rw [heq]
          exact nameLt_of_not_nameLt hnlt (fun h' => hne h'.symm)
        · exact hhead e hmem

/-- The map with `name` bound to `value`; an earlier binding of `name` is replaced. -/
def bind (m : Bindings α) (name : String) (value : α) : Bindings α :=
  ⟨insertInto name value m.entries, ascending_insertInto m.ascending⟩

/-- The map with every entry of a list bound, from left to right. -/
def bindAll (m : Bindings α) (es : List (String × α)) : Bindings α :=
  es.foldl (fun acc e => acc.bind e.1 e.2) m

/-- The map with every entry of `delta` bound over it. -/
def overlay (m delta : Bindings α) : Bindings α :=
  m.bindAll delta.entries

/-- The map of a list of entries; the last entry of a name wins. -/
def ofList (es : List (String × α)) : Bindings α :=
  bindAll empty es

/-- The entries in ascending order of their names. -/
def toList (m : Bindings α) : List (String × α) :=
  m.entries

/-! ### Look-ups -/

@[simp] theorem lookup_empty (name : String) : (empty : Bindings α).lookup name = none := rfl

theorem lookupIn_insertInto (name : String) (value : α) (es : List (String × α)) (x : String) :
    lookupIn x (insertInto name value es) = if name = x then some value else lookupIn x es := by
  induction es with
  | nil => simp [insertInto, lookupIn]
  | cons a rest ih =>
    obtain ⟨n, v⟩ := a
    simp only [insertInto]
    split
    · next heq => subst heq; simp only [lookupIn]; split <;> rfl
    · next hne =>
      split
      · simp only [lookupIn]
      · simp only [lookupIn, ih]
        split
        · next hnx =>
          subst hnx
          simp [Ne.symm hne]
        · rfl

theorem lookup_bind (m : Bindings α) (name : String) (value : α) (x : String) :
    (m.bind name value).lookup x = if name = x then some value else m.lookup x :=
  lookupIn_insertInto name value m.entries x

@[simp] theorem lookup_bind_self (m : Bindings α) (name : String) (value : α) :
    (m.bind name value).lookup name = some value := by
  simp [lookup_bind]

theorem lookup_bind_of_ne (m : Bindings α) {name x : String} (value : α) (h : name ≠ x) :
    (m.bind name value).lookup x = m.lookup x := by
  simp [lookup_bind, h]

theorem lookupIn_eq_none_of_lt {l : List (String × α)} {x : String}
    (h : ∀ e ∈ l, nameLt x e.1) : lookupIn x l = none := by
  induction l with
  | nil => rfl
  | cons a rest ih =>
    have hne : a.1 ≠ x := fun heq => nameLt_irrefl x (heq ▸ h a (List.mem_cons_self ..))
    simp only [lookupIn, hne, if_false]
    exact ih (fun e he => h e (List.mem_cons_of_mem _ he))

theorem entries_eq_of_lookupIn_eq {es fs : List (String × α)}
    (he : es.Pairwise (fun a b => nameLt a.1 b.1)) (hf : fs.Pairwise (fun a b => nameLt a.1 b.1))
    (h : ∀ x, lookupIn x es = lookupIn x fs) : es = fs := by
  induction es generalizing fs with
  | nil =>
    cases fs with
    | nil => rfl
    | cons b fs => have := h b.1; simp [lookupIn] at this
  | cons a es ih =>
    cases fs with
    | nil => have := h a.1; simp [lookupIn] at this
    | cons b fs =>
      obtain ⟨hea, hes⟩ := List.pairwise_cons.1 he
      obtain ⟨hfb, hfs⟩ := List.pairwise_cons.1 hf
      have hab : a.1 = b.1 := by
        apply Classical.byContradiction
        intro hne
        by_cases hlt : nameLt a.1 b.1
        · have h1 := h a.1
          rw [lookupIn_eq_none_of_lt (l := b :: fs)] at h1
          · simp [lookupIn] at h1
          · intro e hmem
            rcases List.mem_cons.1 hmem with rfl | hmem'
            · exact hlt
            · exact nameLt_trans hlt (hfb e hmem')
        · have hlt' := nameLt_of_not_nameLt hlt hne
          have h1 := h b.1
          rw [lookupIn_eq_none_of_lt (l := a :: es)] at h1
          · simp [lookupIn] at h1
          · intro e hmem
            rcases List.mem_cons.1 hmem with rfl | hmem'
            · exact hlt'
            · exact nameLt_trans hlt' (hea e hmem')
      have hval : a.2 = b.2 := by
        have h1 := h a.1
        simp only [lookupIn, hab, if_true] at h1
        exact Option.some.inj h1
      have hhead : a = b := Prod.ext hab hval
      subst hhead
      congr 1
      apply ih hes hfs
      intro x
      by_cases hx : a.1 = x
      · subst hx
        rw [lookupIn_eq_none_of_lt hea, lookupIn_eq_none_of_lt hfb]
      · have h1 := h x
        simpa [lookupIn, hx] using h1

/-- A map is determined by its look-ups. -/
theorem ext_lookup {m n : Bindings α} (h : ∀ x, m.lookup x = n.lookup x) : m = n := by
  cases m with
  | mk es he =>
    cases n with
    | mk fs hf =>
      have : es = fs := entries_eq_of_lookupIn_eq he hf h
      subst this
      rfl

end Bindings

/-- The environment and the variables of a session: texts bound to names. -/
abbrev Env := Bindings String

end ScriptRunner

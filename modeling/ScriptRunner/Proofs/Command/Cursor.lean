import ScriptRunner.Command.Reader

/-!
# ScriptRunner.Proofs.Command.Cursor

Reading a text with a cursor.

The reader takes one character after the other and never looks ahead. A text can also be read in
parts: each of them, a quote, a word, an array, is read from a position on and leaves the cursor at
the position where the next one begins. Here is what all parts have in common: the cursor, which
also keeps the texts that were handed on to be read by themselves, what reading a part gives
(`Scanned`), and what holds of it (`Passes`): the cursor does not move back and stays in the text,
and what is handed on is shorter than the text.

Parts are made of parts. `Passes.trans` and `Passes.bind` are for one part after another, so a loop
over the text passes it if each of its turns does.
-/

namespace ScriptRunner.Scan

open Reader

/-! ## The cursor -/

/-- Where a text is being read, and the texts of the substitutions that were found on the way, in
the order in which they were handed on to be read by themselves. -/
structure Cursor where
  pos : Nat
  handed : List (List Char)

namespace Cursor

/-- At the beginning of a text. -/
def start : Cursor := ⟨0, []⟩

/-- One character on. -/
def bump (cur : Cursor) : Cursor := ⟨cur.pos + 1, cur.handed⟩

/-- A substitution is handed on. -/
def hand (cur : Cursor) (text : List Char) : Cursor := ⟨cur.pos, cur.handed ++ [text]⟩

end Cursor

/-- What reading a part of a text gives: its value, or why nothing more is read, and where that
is. -/
structure Scanned (α : Type) where
  result : Except Halt α
  cursor : Cursor

namespace Scanned

/-- The part and then another one. -/
def bind {α β : Type} (r : Scanned α) (next : α → Cursor → Scanned β) : Scanned β :=
  match r with
  | ⟨.ok a, cur⟩ => next a cur
  | ⟨.error halt, cur⟩ => ⟨.error halt, cur⟩

theorem bind_ok {α β : Type} {r : Scanned α} {k : α → Cursor → Scanned β} {b : β} {next : Cursor}
    (h : r.bind k = ⟨.ok b, next⟩) : ∃ a mid, r = ⟨.ok a, mid⟩ ∧ k a mid = ⟨.ok b, next⟩ := by
  obtain ⟨result, mid⟩ := r
  cases result with
  | ok a => exact ⟨a, mid, rfl, h⟩
  | error halt => cases h

end Scanned

variable (inner : List Char → Reading) (text : List Char)

/-- The character at the cursor. -/
def peek (cur : Cursor) : Option Char := text[cur.pos]?

section Left

variable {text} {cur here next : Cursor} {c : Char}

theorem lt_of_peek (h : peek text cur = some c) : cur.pos < text.length :=
  (List.getElem?_eq_some_iff.1 h).1

theorem mem_of_peek (h : peek text cur = some c) : c ∈ text :=
  List.mem_of_getElem? h

/-- Behind a later position less of the text is left. -/
theorem sub_lt_of_lt (h : cur.pos ≤ here.pos) (hhere : here.pos < text.length)
    (hnext : here.pos < next.pos) : text.length - next.pos < text.length - cur.pos := by
  omega

theorem sub_lt_of_passed (h : peek text cur = some c) (hnext : cur.bump.pos ≤ next.pos) :
    text.length - next.pos < text.length - cur.pos :=
  sub_lt_of_lt (Nat.le_refl _) (lt_of_peek h) hnext

theorem bump_lt (h : peek text cur = some c) :
    text.length - cur.bump.pos < text.length - cur.pos :=
  sub_lt_of_passed h (Nat.le_refl _)

end Left

/-- Past all characters of a class. -/
def skip (p : Char → Bool) (cur : Cursor) : Cursor :=
  match _hc : peek text cur with
  | some c => if p c then skip p cur.bump else cur
  | none => cur
termination_by text.length - cur.pos
decreasing_by exact bump_lt _hc

/-- Past all characters of a class, which are collected. -/
def collect (p : Char → Bool) (taken : List Char) (cur : Cursor) : List Char × Cursor :=
  match _hc : peek text cur with
  | some c => if p c then collect p (taken ++ [c]) cur.bump else (taken, cur)
  | none => (taken, cur)
termination_by text.length - cur.pos
decreasing_by exact bump_lt _hc

/-! ## What reading a part does -/

/-- A part of a text is read from the cursor on. Nothing is read twice or behind the end of the
text. What is handed on is made of the characters of the text, and shorter. And reading is stalled
exactly where the reading of something that is handed on is. -/
structure Passes {α : Type} (cur : Cursor) (r : Scanned α) : Prop where
  le : cur.pos ≤ r.cursor.pos
  within : cur.pos ≤ text.length → r.cursor.pos ≤ text.length
  handed : ∃ new, r.cursor.handed = cur.handed ++ new ∧
    (∀ part ∈ new, part.length < text.length ∧ part ⊆ text) ∧
    (r.result = .error .stalled ↔ ∃ part ∈ new, (inner part).result = .error .stalled)

namespace Passes

variable {inner text} {α β : Type} {cur next : Cursor} {a : α} {c : Char} {halt : Halt}

theorem here (cur : Cursor) (a : α) : Passes inner text cur ⟨.ok a, cur⟩ :=
  ⟨Nat.le_refl _, id, [], (List.append_nil _).symm, by simp⟩

theorem refused (cur : Cursor) (reason : SyntaxError) :
    Passes inner text cur (⟨.error (.refused reason), cur⟩ : Scanned α) :=
  ⟨Nat.le_refl _, id, [], (List.append_nil _).symm, by simp⟩

theorem bump (h : peek text cur = some c) (a : α) : Passes inner text cur ⟨.ok a, cur.bump⟩ :=
  ⟨Nat.le_succ _, fun _ => lt_of_peek h, [], (List.append_nil _).symm, by simp⟩

/-- One part and then the next one. -/
theorem trans (h : Passes inner text cur ⟨.ok a, next⟩) {r : Scanned β}
    (hr : Passes inner text next r) : Passes inner text cur r := by
  obtain ⟨new, hnew, hparts, hstalled⟩ := h.handed
  obtain ⟨more, hmore, hparts', hstalled'⟩ := hr.handed
  refine ⟨Nat.le_trans h.le hr.le, fun hcur => hr.within (h.within hcur), new ++ more, ?_, ?_, ?_⟩
  · rw [hmore, hnew, List.append_assoc]
  · intro part hpart
    exact (List.mem_append.1 hpart).elim (hparts part) (hparts' part)
  · have hnone : ¬∃ part ∈ new, (inner part).result = .error .stalled :=
      fun h => nomatch hstalled.2 h
    rw [hstalled']
    constructor
    · rintro ⟨part, hpart, hinner⟩
      exact ⟨part, List.mem_append_right _ hpart, hinner⟩
    · rintro ⟨part, hpart, hinner⟩
      rcases List.mem_append.1 hpart with hpart | hpart
      · exact absurd ⟨part, hpart, hinner⟩ hnone
      · exact ⟨part, hpart, hinner⟩

/-- A part that is given up is given up for what it is a part of. -/
theorem error (h : Passes inner text cur (⟨.error halt, next⟩ : Scanned α)) :
    Passes inner text cur (⟨.error halt, next⟩ : Scanned β) := by
  obtain ⟨new, hnew, hparts, hstalled⟩ := h.handed
  refine ⟨h.le, h.within, new, hnew, hparts, Iff.trans ?_ hstalled⟩
  simp

theorem bind {r : Scanned α} {k : α → Cursor → Scanned β} (h : Passes inner text cur r)
    (hk : ∀ a next, r = ⟨.ok a, next⟩ → Passes inner text next (k a next)) :
    Passes inner text cur (r.bind k) := by
  obtain ⟨result, next⟩ := r
  cases result with
  | ok a => exact h.trans (hk a next rfl)
  | error halt => exact h.error

end Passes

section Skipping

variable {inner text} {p : Char → Bool} {cur : Cursor} {c : Char}

theorem passes_skip {α : Type} (p : Char → Bool) (cur : Cursor) (a : α) :
    Passes inner text cur ⟨.ok a, skip text p cur⟩ := by
  fun_induction skip text p cur with
  | case1 cur c hc hp ih => exact (Passes.bump hc a).trans ih
  | case2 cur c hc hp => exact .here cur a
  | case3 cur hc => exact .here cur a

theorem passes_collect {α : Type} (p : Char → Bool) (taken : List Char) (cur : Cursor) (a : α) :
    Passes inner text cur ⟨.ok a, (collect text p taken cur).2⟩ := by
  fun_induction collect text p taken cur with
  | case1 taken cur c hc hp ih => exact (Passes.bump hc a).trans ih
  | case2 taken cur c hc hp => exact .here cur a
  | case3 taken cur hc => exact .here cur a

theorem handed_skip (p : Char → Bool) (cur : Cursor) :
    (skip text p cur).handed = cur.handed := by
  fun_induction skip text p cur with
  | case1 cur c hc hp ih => exact ih
  | case2 cur c hc hp => rfl
  | case3 cur hc => rfl

theorem handed_collect (p : Char → Bool) (taken : List Char) (cur : Cursor) :
    (collect text p taken cur).2.handed = cur.handed := by
  fun_induction collect text p taken cur with
  | case1 taken cur c hc hp ih => exact ih
  | case2 taken cur c hc hp => rfl
  | case3 taken cur hc => rfl

theorem skip_some (hc : peek text cur = some c) (hp : p c = true) :
    skip text p cur = skip text p cur.bump := by
  fun_cases skip text p cur with
  | case1 => rfl
  | case2 d hd hnot => simp_all
  | case3 hd => simp_all

theorem skip_of_peek (hc : peek text cur = some c) (hp : p c = false) : skip text p cur = cur := by
  fun_cases skip text p cur with
  | case1 d hd hnot => simp_all
  | case2 => rfl
  | case3 => rfl

theorem collect_some {taken : List Char} (hc : peek text cur = some c) (hp : p c = true) :
    collect text p taken cur = collect text p (taken ++ [c]) cur.bump := by
  fun_cases collect text p taken cur with
  | case1 d hd _ =>
      obtain rfl : d = c := Option.some.inj (hd.symm.trans hc)
      rfl
  | case2 d hd hnot => simp_all
  | case3 hd => simp_all

theorem le_skip (p : Char → Bool) (cur : Cursor) : cur.pos ≤ (skip text p cur).pos := by
  fun_induction skip text p cur with
  | case1 cur c hc hp ih => exact Nat.le_trans (Nat.le_succ cur.pos) ih
  | case2 cur c hc hp => exact Nat.le_refl _
  | case3 cur hc => exact Nat.le_refl _

theorem skip_lt (hc : peek text cur = some c) (hp : p c = true) :
    cur.pos < (skip text p cur).pos := by
  rw [skip_some hc hp]
  exact le_skip p cur.bump

/-- What stands behind skipped characters is not one of them. -/
theorem peek_skip (hc : peek text (skip text p cur) = some c) : p c = false := by
  fun_induction skip text p cur with
  | case1 cur d hd hp ih => exact ih hc
  | case2 cur d hd hp =>
      obtain rfl : d = c := Option.some.inj (hd.symm.trans hc)
      exact eq_false_of_ne_true hp
  | case3 cur hd => simp [hd] at hc

end Skipping

end ScriptRunner.Scan

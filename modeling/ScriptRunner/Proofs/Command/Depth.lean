import ScriptRunner.Proofs.Command.Steps

/-!
# ScriptRunner.Proofs.Command.Depth

How deep the reader has to go.

`read` bounds the depth of substitutions by the length of the text. The text collected for a
substitution is shorter than what was read before its end (`step_within`), so bounds beyond
the length of the text all read alike (`readWithin_eq`), and reading satisfies the equation
without a bound: a text is read with the reading of the texts of its substitutions (`read_eq`).
-/

namespace ScriptRunner.Reader

/-! ## What is collected -/

/-- The text that is collected for a substitution is shorter than what has been read, which is `n`
characters long. -/
def Mode.Within (n : Nat) : Mode → Prop
  | .parens _ _ _ _ _ text => text.length < n
  | .backquote _ text => text.length < n
  | .backquoteEscape _ text => text.length + 1 < n
  | _ => True

/-- The same for positions. -/
def Position.Within (n : Nat) : Position → Prop
  | .word _ _ mode => mode.Within n
  | _ => True

variable {c : Char} {n : Nat}

theorem Position.OpenedBy.within {q : Position} (h : q.OpenedBy c) : q.Within (n + 1) := by
  cases q with
  | word place p mode =>
      cases mode with
      | parens double depth inSingle inDouble escaped text =>
          have htext : text = [] := h
          simp [Position.Within, Mode.Within, htext]
      | backquote double text =>
          have htext : text = [] := h
          simp [Position.Within, Mode.Within, htext]
      | backquoteEscape double text => exact h.elim
      | _ => exact True.intro
  | _ => exact True.intro

theorem Mode.ContinuedBy.within {m m' : Mode} (h : m.ContinuedBy c m') (hm : m.Within n) :
    m'.Within (n + 1) := by
  cases m with
  | parens double depth inSingle inDouble escaped text =>
      cases m' with
      | parens double' depth' inSingle' inDouble' escaped' text' =>
          have htext : text' = text ++ [c] := h
          simpa [Mode.Within, htext] using hm
      | _ => exact h.elim
  | backquote double text =>
      cases m' with
      | backquote double' text' =>
          have htext : text' = text ++ [c] := h
          simpa [Mode.Within, htext] using hm
      | backquoteEscape double' text' =>
          have htext : text' = text := h
          simpa [Mode.Within, htext] using hm
      | _ => exact h.elim
  | backquoteEscape double text =>
      cases m' with
      | backquote double' text' =>
          have hlength : text'.length ≤ text.length + 2 := by
            rcases h with h | h <;> simp [h]
          simp only [Mode.Within] at hm ⊢
          omega
      | _ => exact h.elim
  | braces double depth text =>
      cases m' with
      | braces double' depth' text' => exact True.intro
      | _ => exact h.elim
  | _ => exact h.elim

theorem Position.ContinuedBy.within {q q' : Position} (h : q.ContinuedBy c q')
    (hq : q.Within n) : q'.Within (n + 1) := by
  cases q' with
  | word place' p' mode' =>
      -- only a word goes on as a word
      cases q with
      | word place p mode => exact Mode.ContinuedBy.within h hq
      | _ => exact h.elim
  | _ => exact True.intro

/-- One character more is read, and at most one more is collected. -/
theorem step_within (inner : List Char → Reading) {s : State} (h : s.At (Position.Within n))
    (c : Char) : (step inner s c).At (Position.Within (n + 1)) := by
  cases s with
  | halted halt ignored => exact True.intro
  | running done draft position ignored =>
      refine (step_at inner done draft position ignored c).mono (fun q hq => ?_)
      rcases hq with hopened | hcontinued
      · exact hopened.within
      · exact hcontinued.within h

/-! ## Reading substitutions -/

section Agreement

variable {inner inner' : List Char → Reading}

/-- A character asks for the reading of the text that was collected and of no other. -/
theorem step_congr {s : State} (h : s.At (Position.Within n))
    (hinner : ∀ text : List Char, text.length < n → inner text = inner' text) (c : Char) :
    step inner s c = step inner' s c := by
  cases s with
  | halted halt ignored => rfl
  | running done draft position ignored =>
      cases position with
      | word place p mode =>
          cases mode with
          | parens double depth inSingle inDouble escaped text =>
              simp only [step, stepWord, stepParens, endSubstitution, hinner text h]
          | backquote double text =>
              simp only [step, stepWord, endSubstitution, hinner text h]
          | _ => rfl
      | _ => rfl

theorem foldl_step_congr {s : State} (h : s.At (Position.Within n)) (text : List Char)
    (hinner : ∀ t : List Char, t.length < n + text.length → inner t = inner' t) :
    text.foldl (step inner) s = text.foldl (step inner') s := by
  induction text generalizing s n with
  | nil => rfl
  | cons c rest ih =>
      have hfirst : step inner s c = step inner' s c :=
        step_congr h (fun t ht => hinner t (by omega)) c
      rw [List.foldl_cons, List.foldl_cons, hfirst]
      refine ih (step_within inner' h c) (fun t ht => hinner t ?_)
      rw [List.length_cons]
      omega

theorem readWith_congr (text : List Char)
    (hinner : ∀ t : List Char, t.length < text.length → inner t = inner' t) :
    readWith inner text = readWith inner' text := by
  have hstart : State.start.At (Position.Within 0) := True.intro
  rw [readWith, readWith, foldl_step_congr hstart text (by simpa using hinner)]

end Agreement

/-- Bounds on the depth that are more than the length of the text make no difference. -/
theorem readWithin_eq {depth depth' : Nat} {text : List Char} (h : text.length < depth)
    (h' : text.length < depth') : readWithin depth text = readWithin depth' text := by
  induction depth generalizing depth' text with
  | zero => omega
  | succ depth ih =>
      cases depth' with
      | zero => omega
      | succ depth' =>
          rw [readWithin, readWithin]
          exact readWith_congr text (fun t ht => ih (by omega) (by omega))

/-- A text is read with the reading of the texts of its substitutions. -/
theorem read_eq (text : List Char) : read text = readWith read text := by
  rw [read, readWithin]
  exact readWith_congr text (fun t ht => readWithin_eq ht (Nat.lt_succ_self _))

end ScriptRunner.Reader

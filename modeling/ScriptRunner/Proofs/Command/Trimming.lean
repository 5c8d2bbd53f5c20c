import Mathlib.Data.List.DropRight
import ScriptRunner.Proofs.Command.Phase

/-!
# ScriptRunner.Proofs.Command.Trimming

White space at the ends of an accepted text.

Entries are trimmed before they are read, and by a wider class of white space than the one that
separates words. That makes no difference to an accepted text of one line. In front of it only
the narrower class can stand, which the reader skips. After it, white space ends the word before
it, as the end of the text would (`finish_step_blank`), or is a part of a comment; where
it would be anything else, something is still open, and the text is refused. Only a backslash
before it is read differently.

Main statement: `read_trim`.
-/

namespace ScriptRunner.Reader

/-- A character of white space that ends no line. -/
structure IsLineBlank (c : Char) : Prop where
  blank : isBlank c = true
  line : c ≠ '\n'

namespace IsLineBlank

variable {c : Char} (h : IsLineBlank c)

include h

theorem ne {d : Char} (hd : isBlank d = false) : c ≠ d := by
  rintro rfl
  exact absurd h.blank (by simp [hd])

theorem isWordEnd : isWordEnd c = true := by
  simp [Reader.isWordEnd, h.blank]

theorem not_isNameChar : isNameChar c = false := by
  by_contra hname
  have hend := isWordEnd_of_isPlain (isPlain_of_isNameChar (eq_true_of_ne_false hname))
  exact absurd h.isWordEnd (by simp [hend])

theorem not_isNameStart : isNameStart c = false := by
  by_contra hname
  have hchar := isNameChar_of_isNameStart (eq_true_of_ne_false hname)
  exact absurd hchar (by simp [h.not_isNameChar])

theorem not_isSpecialParameter : isSpecialParameter c = false := by
  have hdigit : isAsciiDigit c = false := by
    have hname := h.not_isNameChar
    simp only [isNameChar, Bool.or_eq_false_iff] at hname
    exact hname.1.2
  simp [isSpecialParameter, hdigit, h.ne (d := '?') (by decide), h.ne (d := '$') (by decide),
    h.ne (d := '#') (by decide), h.ne (d := '@') (by decide), h.ne (d := '*') (by decide),
    h.ne (d := '!') (by decide), h.ne (d := '-') (by decide)]

end IsLineBlank

section Blank

variable {f : Frame} {place : Place} {p : Pieces} {c : Char} {statements : List Statement}

/-- Between words white space is skipped, or nothing goes on. -/
theorem stepGap_blank (hc : IsLineBlank c) :
    stepGap f c = f.goTo .gap ∨ stepGap f c = .halted .stalled f.ignored := by
  by_cases hspace : isCommandBlank c = true
  · exact Or.inl (if_pos hspace)
  · right
    unfold stepGap
    rw [if_neg hspace, if_neg (not_or.2 ⟨hc.ne (by decide), hc.line⟩), if_neg (hc.ne (by decide)),
      if_neg (not_or.2 ⟨hc.ne (by decide), hc.ne (by decide)⟩),
      if_neg (not_or.2 ⟨hc.ne (by decide), hc.ne (by decide)⟩),
      if_neg (not_or.2 ⟨hc.ne (by decide), hc.ne (by decide)⟩), if_pos hc.blank]

theorem finish_stepGap_blank (hc : IsLineBlank c)
    (h : (finish (stepGap f c)).result = .ok statements) : finish (stepGap f c) = complete f := by
  rcases stepGap_blank (f := f) hc with hskip | hstalled
  · rw [hskip]
    rfl
  · rw [hstalled] at h
    cases h

theorem finish_stepAfterWord_blank (hc : IsLineBlank c)
    (h : (finish (stepAfterWord f place p c)).result = .ok statements) :
    finish (stepAfterWord f place p c) = finishWord f place p := by
  unfold stepAfterWord at h ⊢
  unfold finishWord
  rcases hend : endWord f place p with ⟨g, position⟩
  rw [hend] at h
  cases position with
  | arrayGap name elements =>
      -- between the elements of an array white space leaves the array open
      simp only [stepArrayGap, hc.blank, if_true] at h
      cases h
  | _ => exact finish_stepGap_blank hc h

theorem finish_stepBare_blank (hc : IsLineBlank c)
    (h : (finish (stepBare f place p c)).result = .ok statements) :
    finish (stepBare f place p c) = finishWord f place p := by
  unfold stepBare at h ⊢
  rw [if_pos hc.isWordEnd] at h ⊢
  exact finish_stepAfterWord_blank hc h

theorem stepDouble_blank (hc : IsLineBlank c) :
    stepDouble f place p c = f.inWord place (p.addChar c) .double := by
  unfold stepDouble
  rw [if_neg (hc.ne (by decide)), if_neg (hc.ne (by decide)), if_neg (hc.ne (by decide)),
    if_neg (hc.ne (by decide))]

theorem finish_stepAfterExpansion_blank {double : Bool} (hc : IsLineBlank c)
    (h : (finish (stepAfterExpansion double f place p c)).result = .ok statements) :
    finish (stepAfterExpansion double f place p c) = finishExpansion double f place p := by
  cases double with
  | false => exact finish_stepBare_blank hc h
  | true =>
      rw [stepAfterExpansion, if_pos rfl, stepDouble_blank hc] at h
      cases h

theorem finish_stepWord_blank (inner : List Char → Reading) {mode : Mode} (hc : IsLineBlank c)
    (hmode : mode ≠ .escape)
    (h : (finish (stepWord inner f place p mode c)).result = .ok statements) :
    finish (stepWord inner f place p mode c) = finish (f.inWord place p mode) := by
  cases mode with
  | tilde =>
      rw [stepWord, if_pos (Or.inr hc.isWordEnd)] at h ⊢
      exact finish_stepBare_blank hc h
  | bare => exact finish_stepBare_blank hc h
  | escape => exact absurd rfl hmode
  | single =>
      rw [stepWord, if_neg (hc.ne (by decide))] at h
      cases h
  | double =>
      rw [stepWord, stepDouble_blank hc] at h
      cases h
  | doubleEscape =>
      have hescapable : isDoubleEscapable c = false := by
        simp [isDoubleEscapable, hc.ne (d := '$') (by decide), hc.ne (d := '\x60') (by decide),
          hc.ne (d := '"') (by decide), hc.ne (d := '\\') (by decide)]
      rw [stepWord, if_neg hc.line, if_neg (by simp [hescapable]), stepDouble_blank hc] at h
      cases h
  | dollar double =>
      have hdollar : stepDollar double f place p c =
          stepAfterExpansion double f place (p.addChar '$') c := by
        unfold stepDollar
        rw [if_neg (hc.ne (by decide)), if_neg (hc.ne (by decide)),
          if_neg (by simp [hc.not_isNameStart]), if_neg (by simp [hc.not_isSpecialParameter])]
      rw [stepWord, hdollar] at h ⊢
      exact finish_stepAfterExpansion_blank hc h
  | name double letters =>
      rw [stepWord, if_neg (by simp [hc.not_isNameChar])] at h ⊢
      exact finish_stepAfterExpansion_blank hc h
  | braces double depth text =>
      rw [stepWord, stepBraces, if_neg (hc.ne (by decide)), if_neg (hc.ne (by decide))] at h
      cases h
  | parens double depth inSingle inDouble escaped text =>
      let n : Nesting := ⟨depth, inSingle, inDouble, escaped⟩
      have hstep := stepWord_mode f place p inner double n text c
      cases hnext : n.next c with
      | none => exact absurd (Nesting.of_next_eq_none hnext).1 (hc.ne (by decide))
      | some n' =>
          rw [hnext, Nesting.mode] at hstep
          rw [hstep] at h
          cases h
  | backquote double text =>
      rw [stepWord, if_neg (hc.ne (by decide)), if_neg (hc.ne (by decide))] at h
      cases h
  | backquoteEscape double text => cases h

/-- White space at the end makes no difference to an accepted text, unless it is escaped. -/
theorem finish_step_blank (inner : List Char → Reading) {s : State} (hc : IsLineBlank c)
    (hescape : s.At (fun q => ∀ place p, q ≠ .word place p .escape))
    (h : (finish (step inner s c)).result = .ok statements) :
    finish (step inner s c) = finish s := by
  cases s with
  | halted halt ignored => rfl
  | running done draft position ignored =>
      cases position with
      | gap => exact finish_stepGap_blank hc h
      | comment =>
          rw [step, if_neg hc.line]
          rfl
      | operator redirection run =>
          have hoperator : isOperatorChar c = false := by
            simp [isOperatorChar, hc.ne (d := '|') (by decide), hc.ne (d := '&') (by decide),
              hc.ne (d := '<') (by decide), hc.ne (d := '>') (by decide)]
          rw [step, if_neg (by simp [hoperator])] at h
          cases redirection <;> cases h
      | letters text =>
          rw [step, if_neg (by simp [hc.not_isNameChar]), if_neg (hc.ne (by decide))] at h ⊢
          exact finish_stepBare_blank hc h
      | valueStart name =>
          rw [step, if_neg (hc.ne (by decide)), if_pos hc.isWordEnd] at h ⊢
          exact finish_stepGap_blank hc h
      | arrayGap name elements =>
          simp only [step, stepArrayGap, hc.blank, if_true] at h
          cases h
      | arrayComment name elements =>
          rw [step, if_neg hc.line] at h
          cases h
      | arrayEnd name elements =>
          rw [step, if_pos hc.isWordEnd] at h ⊢
          exact finish_stepGap_blank hc h
      | word place p mode =>
          exact finish_stepWord_blank inner hc (fun hmode => hescape place p (hmode ▸ rfl)) h

end Blank

/-! ## Texts of one line -/

section Trim

variable (inner : List Char → Reading) {text : List Char} {statements : List Statement}

theorem foldl_halted (halt : Halt) (ignored : List IgnoredSubstitution) (text : List Char) :
    text.foldl (step inner) (.halted halt ignored) = .halted halt ignored := by
  induction text with
  | nil => rfl
  | cons c rest ih => exact ih

/-- White space in front of an accepted text is skipped. -/
theorem readWith_trimStart (hline : '\n' ∉ text)
    (h : (readWith inner text).result = .ok statements) :
    readWith inner (Text.trimStart text) = readWith inner text := by
  induction text with
  | nil => rfl
  | cons c rest ih =>
      rw [List.mem_cons, not_or] at hline
      by_cases hblank : isBlank c = true
      · rw [Text.trimStart, List.dropWhile_cons_of_pos hblank]
        have hc : IsLineBlank c := ⟨hblank, Ne.symm hline.1⟩
        have hstep : step inner State.start c = State.start ∨
            step inner State.start c = .halted .stalled [] :=
          stepGap_blank (f := ⟨[], Draft.start, []⟩) hc
        have hread : readWith inner (c :: rest) = readWith inner rest := by
          rw [readWith, List.foldl_cons] at h ⊢
          rcases hstep with hskip | hstalled
          · rw [hskip]
            rfl
          · rw [hstalled, foldl_halted] at h
            cases h
        rw [hread] at h ⊢
        exact ih hline.2 h
      · rw [Text.trimStart, List.dropWhile_cons_of_neg hblank]

/-- White space behind an accepted text makes no difference. -/
theorem readWith_trimEnd (hline : '\n' ∉ text) (hlast : (Text.trimEnd text).getLast? ≠ some '\\')
    (h : (readWith inner text).result = .ok statements) :
    readWith inner (Text.trimEnd text) = readWith inner text := by
  induction text using List.reverseRecOn with
  | nil => rfl
  | append_singleton init c ih =>
      have hinit : '\n' ∉ init ∧ '\n' ≠ c := by simpa using hline
      by_cases hblank : isBlank c = true
      · have htrim : Text.trimEnd (init ++ [c]) = Text.trimEnd init :=
          List.rdropWhile_concat_pos isBlank init c hblank
        rw [htrim] at hlast ⊢
        -- a backslash at the end of `init` would stay there
        have hescape : init.getLast? ≠ some '\\' := by
          intro hbackslash
          obtain ⟨front, rfl⟩ := List.getLast?_eq_some_iff.1 hbackslash
          have hkept : Text.trimEnd (front ++ ['\\']) = front ++ ['\\'] :=
            List.rdropWhile_concat_neg isBlank front '\\' (by decide)
          rw [hkept] at hlast
          exact hlast hbackslash
        have hread : readWith inner (init ++ [c]) = readWith inner init := by
          rw [readWith, List.foldl_append, List.foldl_cons, List.foldl_nil] at h ⊢
          exact finish_step_blank inner ⟨hblank, Ne.symm hinit.2⟩
            (foldl_step_not_escape inner hescape) h
        rw [hread] at h ⊢
        exact ih hinit.1 hlast h
      · have htrim : Text.trimEnd (init ++ [c]) = init ++ [c] :=
          List.rdropWhile_concat_neg isBlank init c hblank
        rw [htrim]

/-- An accepted text of one line is read like what is left of it when it is trimmed, unless
that ends in a backslash. -/
theorem readWith_trim (hline : '\n' ∉ text) (hlast : (Text.trim text).getLast? ≠ some '\\')
    (h : (readWith inner text).result = .ok statements) :
    readWith inner (Text.trim text) = readWith inner text := by
  have hstart := readWith_trimStart inner hline h
  have hline' : '\n' ∉ Text.trimStart text :=
    fun hc => hline ((List.dropWhile_sublist isBlank).mem hc)
  rw [← hstart] at h
  exact (readWith_trimEnd inner hline' hlast h).trans hstart

end Trim

theorem trim_concat {c : Char} (hc : isBlank c = false) (front : List Char) :
    Text.trim (front ++ [c]) = Text.trimStart front ++ [c] := by
  have hstart : Text.trimStart (front ++ [c]) = Text.trimStart front ++ [c] := by
    unfold Text.trimStart
    rw [List.dropWhile_append]
    split
    · next hempty =>
        rw [List.isEmpty_iff.1 hempty, List.dropWhile_cons_of_neg (by simp [hc]), List.nil_append]
    · rfl
  rw [Text.trim, hstart]
  exact List.rdropWhile_concat_neg isBlank _ c (by simp [hc])

theorem read_trim {text : List Char} {statements : List Statement} (hline : '\n' ∉ text)
    (hlast : (Text.trim text).getLast? ≠ some '\\') (h : (read text).result = .ok statements) :
    read (Text.trim text) = read text := by
  rw [read_eq] at h
  rw [read_eq, read_eq]
  exact readWith_trim read hline hlast h

end ScriptRunner.Reader

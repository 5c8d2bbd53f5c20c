import ScriptRunner.Command.Reader
import ScriptRunner.Quoting

/-!
# ScriptRunner.Proofs.Text.Characters

What the classes of characters have to do with each other. Quoting, the reader of
commands and the reader of lines each have classes of their own; here it is said once
that the characters that quoting leaves bare, and those of a name, are characters that
mean themselves to both readers (`isPlain`).

A class of ASCII characters is a finite matter: `forall_ascii` reduces a statement about
it to the first 128 characters, which are then gone through.
-/

namespace ScriptRunner

/-! ## ASCII -/

/-- What holds of the first 128 characters holds of every ASCII character. -/
theorem forall_ascii {P : Char → Prop} (h : ∀ n : Fin 128, P (Char.ofNat n)) {c : Char}
    (hc : c.toNat < 128) : P c := by
  have hn := h ⟨c.toNat, hc⟩
  rwa [Char.ofNat_toNat] at hn

theorem isAscii_of_isAsciiLetter {c : Char} (h : isAsciiLetter c = true) : c.toNat < 128 := by
  simp only [isAsciiLetter, Bool.or_eq_true, Bool.and_eq_true, decide_eq_true_eq,
    Char.le_def, UInt32.le_iff_toNat_le] at h
  have hval : c.toNat = c.val.toNat := rfl
  rcases h with ⟨_, h⟩ | ⟨_, h⟩
  · exact hval ▸ Nat.lt_of_le_of_lt h (by decide)
  · exact hval ▸ Nat.lt_of_le_of_lt h (by decide)

theorem isAscii_of_isAsciiDigit {c : Char} (h : isAsciiDigit c = true) : c.toNat < 128 := by
  simp only [isAsciiDigit, Bool.and_eq_true, decide_eq_true_eq, Char.le_def,
    UInt32.le_iff_toNat_le] at h
  have hval : c.toNat = c.val.toNat := rfl
  exact hval ▸ Nat.lt_of_le_of_lt h.2 (by decide)

theorem isAscii_of_isNameChar {c : Char} (h : isNameChar c = true) : c.toNat < 128 := by
  simp only [isNameChar, Bool.or_eq_true, beq_iff_eq] at h
  rcases h with (h | h) | rfl
  · exact isAscii_of_isAsciiLetter h
  · exact isAscii_of_isAsciiDigit h
  · decide

theorem isAscii_of_isBareSafe {c : Char} (h : QuoteStyle.isBareSafe c = true) :
    c.toNat < 128 := by
  by_cases hl : isAsciiLetter c = true
  · exact isAscii_of_isAsciiLetter hl
  · by_cases hd : isAsciiDigit c = true
    · exact isAscii_of_isAsciiDigit hd
    · simp only [QuoteStyle.isBareSafe, hl, hd, Bool.false_or, Bool.or_eq_true, beq_iff_eq] at h
      rcases h with ((((((rfl | rfl) | rfl) | rfl) | rfl) | rfl) | rfl) | rfl <;> decide

/-! ## Characters that mean themselves -/

/-- Whether `c` means itself wherever a word is read: it neither ends a word nor opens a
quote, an escape or an expansion, and it is none of the characters that mean something
else at the start of a word or after a name. -/
def isPlain (c : Char) : Bool :=
  !Reader.isWordEnd c && c != '\\' && c != '\'' && c != '"' && c != '$' && c != '\x60'
    && c != '~' && c != '#' && c != '='

theorem isPlain_of_isBareSafe {c : Char} (h : QuoteStyle.isBareSafe c = true) :
    isPlain c = true :=
  forall_ascii (P := fun c => QuoteStyle.isBareSafe c = true → isPlain c = true) (by decide)
    (isAscii_of_isBareSafe h) h

theorem isPlain_of_isNameChar {c : Char} (h : isNameChar c = true) : isPlain c = true :=
  forall_ascii (P := fun c => isNameChar c = true → isPlain c = true) (by decide)
    (isAscii_of_isNameChar h) h

section Plain

variable {c : Char} (h : isPlain c = true)

include h

theorem isWordEnd_of_isPlain : Reader.isWordEnd c = false := by
  simp only [isPlain, Bool.and_eq_true, Bool.not_eq_true'] at h
  exact h.1.1.1.1.1.1.1.1

theorem ne_of_isPlain :
    c ≠ '\\' ∧ c ≠ '\'' ∧ c ≠ '"' ∧ c ≠ '$' ∧ c ≠ '\x60' ∧ c ≠ '~' ∧ c ≠ '#' ∧ c ≠ '=' := by
  simp only [isPlain, Bool.and_eq_true, bne_iff_ne] at h
  obtain ⟨⟨⟨⟨⟨⟨⟨⟨_, h₁⟩, h₂⟩, h₃⟩, h₄⟩, h₅⟩, h₆⟩, h₇⟩, h₈⟩ := h
  exact ⟨h₁, h₂, h₃, h₄, h₅, h₆, h₇, h₈⟩

end Plain

/-! ## Names -/

/-- A name is a character that starts names, and characters that go on with them. -/
theorem letters_of_isValidName {name : String} (h : isValidName name = true) :
    ∃ c rest, name.toList = c :: rest ∧ isNameStart c = true ∧
      ∀ d ∈ rest, isNameChar d = true := by
  unfold isValidName at h
  cases hname : name.toList with
  | nil => simp [hname, isNameText] at h
  | cons c rest =>
      rw [hname, isNameText, Bool.and_eq_true, List.all_eq_true] at h
      exact ⟨c, rest, rfl, h⟩

theorem isNameChar_of_isValidName {name : String} (h : isValidName name = true) :
    ∀ c ∈ name.toList, isNameChar c = true := by
  obtain ⟨c, rest, hname, hstart, hrest⟩ := letters_of_isValidName h
  rw [hname]
  intro d hd
  rcases List.mem_cons.1 hd with rfl | hd
  · exact isNameChar_of_isNameStart hstart
  · exact hrest d hd

/-! ## Characters of words -/

/-- A character that ends no word is no blank, no separator and no operator. -/
theorem ne_of_not_isWordEnd {c : Char} (h : Reader.isWordEnd c = false) :
    isBlank c = false ∧ c ≠ ';' ∧ c ≠ '|' ∧ c ≠ '&' ∧ c ≠ '<' ∧ c ≠ '>' ∧ c ≠ '(' ∧ c ≠ ')' := by
  simp only [Reader.isWordEnd, Bool.or_eq_false_iff, beq_eq_false_iff_ne] at h
  obtain ⟨⟨⟨⟨⟨⟨⟨h₁, h₂⟩, h₃⟩, h₄⟩, h₅⟩, h₆⟩, h₇⟩, h₈⟩ := h
  exact ⟨h₁, h₂, h₃, h₄, h₅, h₆, h₇, h₈⟩

theorem not_isCommandBlank_of_not_isBlank {c : Char} (h : isBlank c = false) :
    isCommandBlank c = false := by
  cases hc : isCommandBlank c with
  | false => rfl
  | true =>
      rw [isBlank_of_isCommandBlank hc] at h
      exact absurd h (by decide)

theorem ne_newline_of_not_isBlank {c : Char} (h : isBlank c = false) : c ≠ '\n' := by
  rintro rfl
  exact absurd h (by decide)

end ScriptRunner

import ScriptRunner.Proofs.Quoting.Chunks

/-!
# ScriptRunner.Proofs.Command.WordReading

How the reader goes through a word that consists of plain characters and quotes.

A word can begin in several positions: where a statement continues, right after `NAME=`,
between the elements of an array. And its first characters may be held back while they
could still be the name of an assignment. `AtWord` says of all these states that they have
read the same part of a word, and the lemmas about it say that they go on in the same way:
after a plain character (`AtWord.step_plain`), at an opening quote (`AtWord.step_special`),
at the blank after the word (`AtWord.step_blank`) and at the end of the text
(`AtWord.finish_eq`).

From there, a chunk of any style adds its characters to the word (`AtWord.foldl_write`),
and so does a quoted word as a whole (`AtWord.foldl_quoteWord`).
-/

namespace ScriptRunner.Reader

/-! ## Pieces -/

namespace Pieces

/-- More literal text, with or without quotes around it. -/
def addText (p : Pieces) (text : List Char) (quoted : Bool) : Pieces :=
  ⟨p.parts, p.text ++ text, p.quoted || quoted⟩

theorem addText_nil (p : Pieces) : p.addText [] false = p := by
  cases p
  simp [addText]

theorem addText_cons (p : Pieces) (c : Char) (text : List Char) (quoted : Bool) :
    p.addText (c :: text) quoted = (p.addChar c).addText text quoted := by
  simp [addText, addChar]

/-- Literal text alone is one literal, if there is any or a quote was opened. -/
theorem word?_text {text : List Char} {quoted : Bool} (h : text = [] → quoted = true) :
    (Pieces.mk [] text quoted).word? = some (.literal (String.ofList text)) := by
  cases text with
  | nil =>
      rw [h rfl]
      rfl
  | cons c text => simp [word?, anchored, flushed, isLiteral]

end Pieces

/-! ## States inside a word -/

/-- The states in which the reader has read `p` of a word for `place`. -/
inductive AtWord (f : Frame) : Place → Pieces → State → Prop
  /-- Inside the word, outside quotes. -/
  | inside (place : Place) (p : Pieces) : AtWord f place p (f.inWord place p .bare)
  /-- In characters that could still be the name of an assignment. -/
  | letters (text : List Char) : AtWord f .plain ⟨[], text, false⟩ (f.goTo (.letters text))
  /-- Before the first character of the program or an argument. -/
  | gap : AtWord f .plain Pieces.start (f.goTo .gap)
  /-- Before the first character of a value. -/
  | valueStart (name : String) :
      AtWord f (.value name) Pieces.start (f.goTo (.valueStart name))
  /-- Before the first character of an element. -/
  | arrayGap (name : String) (elements : List Word) :
      AtWord f (.element name elements) Pieces.start (f.goTo (.arrayGap name elements))

/-- The characters that open a quote, an escape or an expansion. -/
def isSpecial (c : Char) : Bool :=
  c == '\\' || c == '\'' || c == '"' || c == '$' || c == '\x60'

theorem isWordEnd_of_isSpecial {c : Char} (h : isSpecial c = true) : isWordEnd c = false := by
  simp only [isSpecial, Bool.or_eq_true, beq_iff_eq] at h
  rcases h with (((rfl | rfl) | rfl) | rfl) | rfl <;> decide

theorem stepWordChar_plain {c : Char} (h : isPlain c = true) (f : Frame) (place : Place)
    (p : Pieces) : stepWordChar f place p c = f.inWord place (p.addChar c) .bare := by
  obtain ⟨h₁, h₂, h₃, h₄, h₅, -⟩ := ne_of_isPlain h
  simp only [stepWordChar, h₁, h₂, h₃, h₄, h₅, if_false]

/-- Where a word could start, a character that can start one does so. -/
theorem stepGap_word {c : Char} (hend : isWordEnd c = false) (hhash : c ≠ '#') (f : Frame) :
    stepGap f c =
      if f.draft.name.isNone && isNameStart c then f.goTo (.letters [c])
      else startWord f .plain c := by
  obtain ⟨hblank, h₁, h₂, h₃, h₄, h₅, h₆, h₇⟩ := ne_of_not_isWordEnd hend
  simp only [stepGap, not_isCommandBlank_of_not_isBlank hblank, hblank, h₁, h₂, h₃, h₄, h₅,
    h₆, h₇, hhash, ne_newline_of_not_isBlank hblank, or_self, if_false, Bool.false_eq_true]

/-- The same between the elements of an array. -/
theorem stepArrayGap_word {c : Char} (hend : isWordEnd c = false) (hhash : c ≠ '#') (f : Frame)
    (name : String) (elements : List Word) :
    stepArrayGap f name elements c = startWord f (.element name elements) c := by
  obtain ⟨hblank, -, -, -, -, -, -, hclose⟩ := ne_of_not_isWordEnd hend
  simp only [stepArrayGap, hblank, hclose, hhash, hend, if_false, Bool.false_eq_true]

namespace AtWord

variable {inner : List Char → Reading} {f : Frame} {place : Place} {p : Pieces} {s : State}

/-- A plain character is one more character of the word. -/
theorem step_plain {c : Char} (hc : isPlain c = true) (h : AtWord f place p s) :
    AtWord f place (p.addChar c) (step inner s c) := by
  have hend := isWordEnd_of_isPlain hc
  obtain ⟨-, -, -, -, -, htilde, hhash, heq⟩ := ne_of_isPlain hc
  obtain ⟨-, -, -, -, -, -, hopen, -⟩ := ne_of_not_isWordEnd hend
  cases h with
  | inside =>
      have hstep : step inner (f.inWord place p .bare) c = stepBare f place p c := rfl
      rw [hstep, stepBare, if_neg (by simp [hend]), stepWordChar_plain hc]
      exact inside ..
  | letters text =>
      -- The held-back characters join the word as soon as they cannot be a name any more.
      simp only [Frame.goTo, step]
      by_cases hname : isNameChar c = true
      · rw [if_pos hname]
        exact letters (text ++ [c])
      · rw [if_neg hname, if_neg heq, stepBare, if_neg (by simp [hend]), stepWordChar_plain hc]
        exact inside ..
  | gap =>
      simp only [Frame.goTo, step]
      rw [stepGap_word hend hhash]
      split
      · exact letters [c]
      · rw [startWord, if_neg htilde, stepWordChar_plain hc]
        exact inside ..
  | valueStart name =>
      simp only [Frame.goTo, step]
      rw [if_neg hopen, if_neg (by simp [hend]), startWord, if_neg htilde,
        stepWordChar_plain hc]
      exact inside ..
  | arrayGap name elements =>
      simp only [Frame.goTo, step]
      rw [stepArrayGap_word hend hhash, startWord, if_neg htilde, stepWordChar_plain hc]
      exact inside ..

/-- An opening quote, escape or expansion is met inside the word, wherever the reader was. -/
theorem step_special {c : Char} (hc : isSpecial c = true) (h : AtWord f place p s) :
    step inner s c = stepWordChar f place p c := by
  have hend := isWordEnd_of_isSpecial hc
  obtain ⟨-, -, -, -, -, -, hopen, -⟩ := ne_of_not_isWordEnd hend
  have hother : c ≠ '~' ∧ c ≠ '#' ∧ c ≠ '=' ∧ isNameStart c = false ∧ isNameChar c = false := by
    simp only [isSpecial, Bool.or_eq_true, beq_iff_eq] at hc
    rcases hc with (((rfl | rfl) | rfl) | rfl) | rfl <;> decide
  obtain ⟨htilde, hhash, heq, hstart, hname⟩ := hother
  cases h with
  | inside =>
      have hstep : step inner (f.inWord place p .bare) c = stepBare f place p c := rfl
      rw [hstep, stepBare, if_neg (by simp [hend])]
  | letters text =>
      simp only [Frame.goTo, step]
      rw [if_neg (by simp [hname]), if_neg heq, stepBare, if_neg (by simp [hend])]
  | gap =>
      simp only [Frame.goTo, step]
      rw [stepGap_word hend hhash, if_neg (by simp [hstart]), startWord, if_neg htilde]
  | valueStart name =>
      simp only [Frame.goTo, step]
      rw [if_neg hopen, if_neg (by simp [hend]), startWord, if_neg htilde]
  | arrayGap name elements =>
      simp only [Frame.goTo, step]
      rw [stepArrayGap_word hend hhash, startWord, if_neg htilde]

/-- A space ends the word, wherever the reader was. -/
theorem step_blank (h : AtWord f place p s) : step inner s ' ' = stepAfterWord f place p ' ' := by
  cases h with
  | inside => rfl
  | letters text => rfl
  | gap => rfl
  | valueStart name => rfl
  | arrayGap name elements => simp [Frame.goTo, step, stepAfterWord, endWord, Pieces.word?,
      Pieces.anchored, Pieces.flushed, Pieces.start]

/-- So does the end of the text. -/
theorem finish_eq (h : AtWord f place p s) : finish s = finishWord f place p := by
  cases h <;> rfl

/-- The `)` of an array ends its last element. -/
theorem step_close {name : String} {elements : List Word}
    (h : AtWord f (.element name elements) p s) :
    step inner s ')' = f.goTo (.arrayEnd name (elements ++ p.word?.toList)) := by
  cases h with
  | inside => rfl
  | arrayGap =>
      simp [Frame.goTo, step, stepArrayGap, isBlank, Pieces.word?, Pieces.anchored,
        Pieces.flushed, Pieces.start]

end AtWord

/-! ## Between quotes -/

section Quotes

variable (inner : List Char → Reading) (f : Frame) (place : Place)

/-- Between apostrophes all characters but the apostrophe are literal. -/
theorem foldl_step_single (p : Pieces) {text : List Char} (h : ∀ c ∈ text, c ≠ '\'') :
    text.foldl (step inner) (f.inWord place p .single) =
      f.inWord place (p.addText text false) .single := by
  induction text generalizing p with
  | nil => rw [Pieces.addText_nil]; rfl
  | cons c rest ih =>
      have hc : c ≠ '\'' := h c (by simp)
      have hstep : step inner (f.inWord place p .single) c =
          f.inWord place (p.addChar c) .single := by
        simp [Frame.inWord, Frame.goTo, step, stepWord, hc]
      rw [List.foldl_cons, hstep, ih _ (fun d hd => h d (List.mem_cons_of_mem _ hd)),
        Pieces.addText_cons]

/-- A character as it is written between double quotes. -/
def writeDouble (c : Char) : List Char :=
  if c = '"' ∨ c = '\\' then ['\\', c] else [c]

/-- Between double quotes a character is literal, with a backslash where it needs one. -/
theorem foldl_step_writeDouble (p : Pieces) {c : Char} (h : c ≠ '\x60' ∧ c ≠ '$') :
    (writeDouble c).foldl (step inner) (f.inWord place p .double) =
      f.inWord place (p.addChar c) .double := by
  unfold writeDouble
  split
  · next hesc => rcases hesc with rfl | rfl <;> rfl
  · next hesc =>
      rw [not_or] at hesc
      simp [Frame.inWord, Frame.goTo, step, stepWord, stepDouble, hesc, h]

/-- Between double quotes text without expansions is literal. -/
theorem foldl_step_double (p : Pieces) {text : List Char}
    (h : ∀ c ∈ text, c ≠ '\x60' ∧ c ≠ '$') :
    (text.flatMap writeDouble).foldl (step inner) (f.inWord place p .double) =
      f.inWord place (p.addText text false) .double := by
  induction text generalizing p with
  | nil => rw [Pieces.addText_nil]; rfl
  | cons c rest ih =>
      rw [List.flatMap_cons, List.foldl_append,
        foldl_step_writeDouble inner f place p (h c (by simp)),
        ih _ (fun d hd => h d (List.mem_cons_of_mem _ hd)), Pieces.addText_cons]

end Quotes

/-! ## Chunks and words -/

namespace AtWord

variable (inner : List Char → Reading) {f : Frame} {place : Place} {p : Pieces} {s : State}

/-- Plain text is added to the word. -/
theorem foldl_plain {text : List Char} (htext : ∀ c ∈ text, isPlain c = true)
    (h : AtWord f place p s) :
    AtWord f place (p.addText text false) (text.foldl (step inner) s) := by
  induction text generalizing p s with
  | nil => rwa [Pieces.addText_nil]
  | cons c rest ih =>
      rw [List.foldl_cons, Pieces.addText_cons]
      exact ih (fun d hd => htext d (List.mem_cons_of_mem _ hd))
        (h.step_plain (htext c (by simp)))

/-- A chunk adds its characters to the word, and its quotes if it has some. -/
theorem foldl_write {style : QuoteStyle} {chunk : List Char}
    (hchunk : ∀ c ∈ chunk, style.admits c = true) (h : AtWord f place p s) :
    AtWord f place (p.addText chunk style.isQuoted)
      ((style.write chunk).foldl (step inner) s) := by
  cases style with
  | bare => exact h.foldl_plain inner (fun c hc => isPlain_of_isBareSafe (hchunk c hc))
  | single =>
      have htext : ∀ c ∈ chunk, c ≠ '\'' := fun c hc => bne_iff_ne.1 (hchunk c hc)
      have hopen : stepWordChar f place p '\'' = f.inWord place p.openQuote .single := rfl
      rw [QuoteStyle.write, List.foldl_cons, h.step_special rfl, hopen, List.foldl_append,
        foldl_step_single inner f place _ htext]
      have hclose : step inner (f.inWord place (p.openQuote.addText chunk false) .single) '\'' =
          f.inWord place (p.addText chunk true) .bare := by
        simp [Frame.inWord, Frame.goTo, step, stepWord, Pieces.addText, Pieces.openQuote]
      rw [List.foldl_cons, List.foldl_nil, hclose]
      exact inside ..
  | double =>
      have htext : ∀ c ∈ chunk, c ≠ '\x60' ∧ c ≠ '$' := by
        intro c hc
        have hadmits := hchunk c hc
        simp only [QuoteStyle.admits, Bool.and_eq_true, bne_iff_ne] at hadmits
        exact hadmits
      have hopen : stepWordChar f place p '"' = f.inWord place p.openQuote .double := rfl
      have hwrite : QuoteStyle.double.write chunk =
          '"' :: (chunk.flatMap writeDouble ++ ['"']) := rfl
      rw [hwrite, List.foldl_cons, h.step_special rfl, hopen, List.foldl_append,
        foldl_step_double inner f place _ htext]
      have hclose : step inner (f.inWord place (p.openQuote.addText chunk false) .double) '"' =
          f.inWord place (p.addText chunk true) .bare := by
        simp [Frame.inWord, Frame.goTo, step, stepWord, stepDouble, Pieces.addText,
          Pieces.openQuote]
      rw [List.foldl_cons, List.foldl_nil, hclose]
      exact inside ..

/-- Chunks one after another add all their characters. -/
theorem foldl_chunks {chunks : List (QuoteStyle × List Char)}
    (hchunks : ∀ chunk ∈ chunks, ∀ c ∈ chunk.2, chunk.1.admits c = true)
    (h : AtWord f place p s) :
    AtWord f place (p.addText (chunks.flatMap Prod.snd) (chunks.any (·.1.isQuoted)))
      ((chunks.flatMap (fun chunk => chunk.1.write chunk.2)).foldl (step inner) s) := by
  induction chunks generalizing p s with
  | nil => rwa [List.flatMap_nil, List.any_nil, Pieces.addText_nil]
  | cons chunk rest ih =>
      have hfirst := h.foldl_write inner (hchunks chunk (by simp))
      have hrest := ih (fun k hk => hchunks k (List.mem_cons_of_mem _ hk)) hfirst
      simp only [List.flatMap_cons, List.foldl_append, List.any_cons]
      simpa only [Pieces.addText, List.append_assoc, Bool.or_assoc] using hrest

/-- A quoted word is read as that word: its text, and quotes if the text is empty. -/
theorem foldl_quoteWord (word : List Char) (h : AtWord f place Pieces.start s) :
    ∃ quoted, (word = [] → quoted = true) ∧
      AtWord f place ⟨[], word, quoted⟩ ((Quoting.quoteWord word).foldl (step inner) s) := by
  by_cases hempty : word = []
  · -- An empty word is written as an empty chunk in apostrophes.
    subst hempty
    refine ⟨true, fun _ => rfl, ?_⟩
    have hnone : ∀ c ∈ ([] : List Char), QuoteStyle.single.admits c = true := nofun
    exact h.foldl_write inner hnone
  · have hadmits : ∀ k ∈ Quoting.chunks word, ∀ c ∈ k.2, k.1.admits c = true :=
      fun k hk => (Quoting.admits_of_mem_chunks hk).2
    have hword := h.foldl_chunks inner hadmits
    rw [Quoting.flatten_chunks, ← Quoting.writeChunks_eq] at hword
    refine ⟨(Quoting.chunks word).any (·.1.isQuoted), fun hnil => absurd hnil hempty, ?_⟩
    rw [Quoting.quoteWord, if_neg (by simpa using hempty)]
    exact hword

end AtWord

end ScriptRunner.Reader

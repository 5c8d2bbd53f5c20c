import ScriptRunner.Proofs.Text.Characters

/-!
# ScriptRunner.Proofs.Quoting.Chunks

A quoted word as the sequence of its chunks.

`Quoting.writeChunks` cuts a word and writes it in one recursion. `Quoting.chunks` keeps
the cut itself: the chunks of a word put together are the word (`flatten_chunks`), written
one after another they are what `writeChunks` writes (`writeChunks_eq`), and every chunk
holds only characters that its style can carry (`admits_of_mem_chunks`). Whatever reads a
quoted word can then be followed chunk by chunk, style by style, without looking again at
how the cut was found.
-/

namespace ScriptRunner

namespace QuoteStyle

/-- Whether `c` survives in a chunk of this style. This is weaker than `holds`, which also
keeps out characters that only an interactive reader would mistake. -/
def admits (style : QuoteStyle) (c : Char) : Bool :=
  match style with
  | bare => isBareSafe c
  | single => c != '\''
  | double => c != '\x60' && c != '$'

/-- Whether the style puts quotes around its chunk. -/
def isQuoted : QuoteStyle → Bool
  | bare => false
  | single => true
  | double => true

theorem admits_of_holds {style : QuoteStyle} {c : Char} (h : style.holds c = true) :
    style.admits c = true := by
  cases style with
  | bare => exact h
  | single =>
      simp only [holds, Bool.and_eq_true] at h
      exact h.1.1
  | double =>
      simp only [holds, Bool.and_eq_true] at h
      simp only [admits, Bool.and_eq_true]
      exact h.1.1

end QuoteStyle

namespace Quoting

open QuoteStyle

/-! ## Growing a chunk -/

/-- What is grown and what is left make up the text again. -/
theorem grow_append (styles : List QuoteStyle) (text : List Char) :
    (grow styles text).1 ++ (grow styles text).2.2 = text := by
  induction text generalizing styles with
  | nil => rfl
  | cons c rest ih =>
      rw [grow]
      split
      · rfl
      · simp only [List.cons_append, ih]

/-- The styles that remain were open from the start and hold all that was grown. -/
theorem holds_of_mem_grow {styles : List QuoteStyle} {text : List Char} {style : QuoteStyle}
    (h : style ∈ (grow styles text).2.1) :
    style ∈ styles ∧ ∀ c ∈ (grow styles text).1, style.holds c = true := by
  induction text generalizing styles with
  | nil => exact ⟨h, by simp [grow]⟩
  | cons c rest ih =>
      rw [grow] at h ⊢
      split at h
      · next hempty =>
          rw [if_pos hempty]
          exact ⟨h, by simp⟩
      · next hsome =>
          rw [if_neg hsome]
          obtain ⟨hmem, hrest⟩ := ih h
          obtain ⟨hstyles, hc⟩ := List.mem_filter.1 hmem
          refine ⟨hstyles, fun d hd => ?_⟩
          rcases List.mem_cons.1 hd with rfl | hd
          · exact hc
          · exact hrest d hd

/-- Growing never runs out of styles. -/
theorem grow_styles_ne_nil {styles : List QuoteStyle} (h : styles ≠ []) (text : List Char) :
    (grow styles text).2.1 ≠ [] := by
  induction text generalizing styles with
  | nil => exact h
  | cons c rest ih =>
      rw [grow]
      split
      · exact h
      · next hsome =>
          exact ih (fun hnil => hsome (by rw [hnil]; rfl))

/-- Some style is open to every first character: `double` to the apostrophe and the
backslash, `single` to all others. -/
theorem stylesAt_ne_nil (c : Char) : stylesAt c ≠ [] := by
  unfold stylesAt
  split
  · simp
  · next hcaret =>
      by_cases hdouble : c = '\'' ∨ c = '\\'
      · have hmem : QuoteStyle.double ∈ narrow QuoteStyle.all c := by
          refine List.mem_filter.2 ⟨by simp [QuoteStyle.all], ?_⟩
          rcases hdouble with rfl | rfl <;> decide
        exact List.ne_nil_of_mem hmem
      · rw [not_or] at hdouble
        have hmem : QuoteStyle.single ∈ narrow QuoteStyle.all c := by
          refine List.mem_filter.2 ⟨by simp [QuoteStyle.all], ?_⟩
          simp [holds, hdouble, hcaret]
        exact List.ne_nil_of_mem hmem

/-- A style that is open to a first character can carry it, the circumflex included. -/
theorem admits_of_mem_stylesAt {c : Char} {style : QuoteStyle} (h : style ∈ stylesAt c) :
    style.admits c = true := by
  unfold stylesAt at h
  split at h
  · next hcaret =>
      rw [List.mem_singleton.1 h, hcaret]
      decide
  · exact admits_of_holds (List.mem_filter.1 h).2

/-! ## The chunks of a word -/

/-- The chunks of a word, each with its style. -/
def chunks : List Char → List (QuoteStyle × List Char)
  | [] => []
  | c :: rest =>
    let grown := grow (stylesAt c) rest
    (grown.2.1.headD .single, c :: grown.1) :: chunks grown.2.2
termination_by text => text.length
decreasing_by exact Nat.lt_succ_of_le (length_grow_le _ _)

/-- A word is written by writing its chunks. -/
theorem writeChunks_eq (word : List Char) :
    writeChunks word = (chunks word).flatMap (fun chunk => chunk.1.write chunk.2) := by
  fun_induction chunks word with
  | case1 => rw [writeChunks]; rfl
  | case2 c rest grown ih =>
      rw [writeChunks, List.flatMap_cons, ih]

/-- Nothing of a word is lost between its chunks. -/
theorem flatten_chunks (word : List Char) :
    (chunks word).flatMap Prod.snd = word := by
  fun_induction chunks word with
  | case1 => rfl
  | case2 c rest grown ih =>
      rw [List.flatMap_cons, ih, List.cons_append, grow_append]

/-- A chunk is not empty, and its style can carry all of it. -/
theorem admits_of_mem_chunks {word : List Char} {chunk : QuoteStyle × List Char}
    (h : chunk ∈ chunks word) :
    chunk.2 ≠ [] ∧ ∀ c ∈ chunk.2, chunk.1.admits c = true := by
  fun_induction chunks word with
  | case1 => simp at h
  | case2 c rest grown ih =>
      rcases List.mem_cons.1 h with rfl | hrest
      · have hne : grown.2.1 ≠ [] := grow_styles_ne_nil (stylesAt_ne_nil c) rest
        obtain ⟨style, others, hstyles⟩ := List.exists_cons_of_ne_nil hne
        have hmem : style ∈ grown.2.1 := by simp [hstyles]
        obtain ⟨hopen, hholds⟩ := holds_of_mem_grow hmem
        refine ⟨by simp, fun d hd => ?_⟩
        simp only [hstyles, List.headD_cons]
        rcases List.mem_cons.1 hd with rfl | hd
        · exact admits_of_mem_stylesAt hopen
        · exact admits_of_holds (hholds d hd)
      · exact ih hrest

end Quoting

end ScriptRunner

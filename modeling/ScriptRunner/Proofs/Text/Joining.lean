import ScriptRunner.Quoting

/-!
# ScriptRunner.Proofs.Text.Joining

Texts joined by a separator and taken apart at one, and the characters of words joined by spaces.
-/

namespace ScriptRunner

namespace Text

theorem join_eq_intercalate (sep : List Char) (texts : List (List Char)) :
    join sep texts = sep.intercalate texts := by
  induction texts with
  | nil => rfl
  | cons t rest ih =>
      cases rest with
      | nil => rw [join_singleton, List.intercalate_singleton]
      | cons u rest =>
          rw [join_cons_cons, ih, List.intercalate_cons_cons]

/-- The separator stands before every text but the first. -/
theorem join_cons (sep t : List Char) (texts : List (List Char)) :
    join sep (t :: texts) = t ++ texts.flatMap (fun u => sep ++ u) := by
  induction texts generalizing t with
  | nil => rw [join_singleton, List.flatMap_nil, List.append_nil]
  | cons u rest ih =>
      rw [join_cons_cons, ih, List.flatMap_cons, List.append_assoc, List.append_assoc]

/-- The separator stands after every text but the last. -/
theorem join_concat (sep : List Char) (texts : List (List Char)) (t : List Char) :
    join sep (texts ++ [t]) = texts.flatMap (fun u => u ++ sep) ++ t := by
  induction texts with
  | nil => rw [List.nil_append, join_singleton, List.flatMap_nil, List.nil_append]
  | cons u rest ih =>
      obtain ⟨v, others, hv⟩ : ∃ v others, rest ++ [t] = v :: others := by
        cases rest with
        | nil => exact ⟨t, [], rfl⟩
        | cons v rest => exact ⟨v, rest ++ [t], rfl⟩
      rw [List.cons_append, hv, join_cons_cons, ← hv, ih, List.flatMap_cons]
      simp only [List.append_assoc]

/-- No piece of a text holds the character that the text is taken apart at. -/
theorem not_mem_of_mem_splitOn {sep : Char} {text piece : List Char}
    (h : piece ∈ text.splitOn sep) : sep ∉ piece := by
  induction text generalizing piece with
  | nil => simp_all
  | cons c rest ih =>
      rw [List.splitOn_cons_eq_if_modifyHead] at h
      by_cases hc : c = sep
      · rw [if_pos (beq_iff_eq.2 hc)] at h
        rcases List.mem_cons.1 h with rfl | h
        · exact List.not_mem_nil
        · exact ih h
      · rw [if_neg (by simpa using hc)] at h
        obtain ⟨first, others, hsplit⟩ := List.exists_cons_of_ne_nil (List.splitOn_ne_nil sep rest)
        rw [hsplit] at h ih
        rcases List.mem_cons.1 h with rfl | h
        · have hfirst := ih List.mem_cons_self
          simp [hfirst, Ne.symm hc]
        · exact ih (List.mem_cons_of_mem _ h)

end Text

theorem toList_joined (sep : String) (texts : List String) :
    (sep.intercalate texts).toList = Text.join sep.toList (texts.map String.toList) := by
  rw [String.toList_intercalate, Text.join_eq_intercalate]

theorem toList_joinBySpace (words : List String) :
    (joinBySpace words).toList = Text.join [' '] (words.map String.toList) :=
  toList_joined " " words

theorem joinBySpace_singleton (word : String) : joinBySpace [word] = word :=
  String.intercalate_singleton

/-- Without a NUL, words are joined as they are quoted. -/
theorem toList_joinWords {words : List String} (h : ∀ w ∈ words, '\x00' ∉ w.toList) :
    (joinWords words).toList =
      Text.join [' '] (words.map (fun w => Quoting.quoteWord w.toList)) := by
  have hnul : ¬ words.any (fun w => w.toList.contains '\x00') = true := by
    simpa using h
  rw [joinWords, if_neg hnul, String.toList_ofList]

end ScriptRunner

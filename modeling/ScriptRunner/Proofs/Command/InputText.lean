import Mathlib.Tactic.SplitIfs
import ScriptRunner.Proofs.Command.LiteralEntry
import ScriptRunner.Proofs.Text.Lines

/-!
# ScriptRunner.Proofs.Command.InputText

Entries with an input: a command, a marker at the end of its line, and lines after it.

The marker is the last thing outside quotes on its line, so the scan for it finds it and
nothing else (`lastMarker_marker`), and its word means the same with quotes around it or a
dash in front of it (`marker?_spelled`). The lines up to the word are then kept as they are.

A text of an entry is taken apart into lines first, and the empty text has none. So an empty
line is lost where it is a text of its own (`not_keepsInput`), and is kept like any other
where the whole entry is one text. `ofLines_input` says both.
-/

namespace ScriptRunner

namespace Text

/-! ## Lines -/

/-- The lines of a text without a line feed: the text itself, unless it is empty. -/
theorem lines_of_no_newline {text : List Char} (h : '\n' ∉ text) :
    lines text = if text = [] then [] else [text] := by
  rw [lines, EntryText.linesFrom_of_no_newline [] h, List.nil_append]
  cases text <;> rfl

theorem linesFrom_append {line : List Char} (h : '\n' ∉ line) (current rest : List Char) :
    linesFrom current (line ++ rest) = linesFrom (current ++ line) rest := by
  induction line generalizing current with
  | nil => rw [List.nil_append, List.append_nil]
  | cons c more ih =>
      rw [List.mem_cons, not_or] at h
      rw [List.cons_append, linesFrom, if_neg (Ne.symm h.1), ih h.2, List.append_assoc,
        List.singleton_append]

theorem stripLast_of_ne {c : Char} {text : List Char} (h : text.getLast? ≠ some c) :
    stripLast c text = text := by
  unfold stripLast
  split
  · next d rest hreverse =>
      have hlast : text.getLast? = some d := by
        rw [List.getLast?_eq_head?_reverse, hreverse]
        rfl
      rw [if_neg (fun heq : d = c => h (heq ▸ hlast))]
  · next hreverse => exact (List.reverse_eq_nil_iff.1 hreverse).symm

/-- Lines with line feeds between them are the lines again, if the last one is not empty. -/
theorem lines_join {texts : List (List Char)} {last : List Char} (hne : last ≠ [])
    (h : ∀ t ∈ texts ++ [last], '\n' ∉ t ∧ '\r' ∉ t) :
    lines (join ['\n'] (texts ++ [last])) = texts ++ [last] := by
  induction texts with
  | nil =>
      rw [List.nil_append, join_singleton, lines_of_no_newline (h last (by simp)).1, if_neg hne]
  | cons t rest ih =>
      obtain ⟨hnewline, hreturn⟩ := h t (by simp)
      have hjoin : join ['\n'] (t :: (rest ++ [last])) =
          t ++ '\n' :: join ['\n'] (rest ++ [last]) := by
        cases hrest : rest ++ [last] with
        | nil => simp at hrest
        | cons u others => rw [join_cons_cons, List.append_assoc, List.singleton_append]
      rw [List.cons_append, hjoin, lines, linesFrom_append hnewline, List.nil_append, linesFrom,
        if_pos rfl, stripLast_of_ne (fun hlast => hreturn (List.mem_of_getLast? hlast))]
      exact congrArg _ (ih (fun u hu => h u (List.mem_cons_of_mem t hu)))

end Text

namespace EntryText

/-! ## The marker -/

theorem lastMarker_of_not_mem {text : List Char} (h : '<' ∉ text) (seen : List Char)
    (found : Option (List Char × List Char)) (inSingle inDouble escaped : Bool) :
    lastMarker seen found inSingle inDouble escaped text = found := by
  induction text generalizing seen inSingle inDouble escaped with
  | nil => rfl
  | cons c rest ih =>
      rw [List.mem_cons, not_or] at h
      rw [lastMarker_cons _ _ _ (fun hc => absurd hc.symm h.1)]
      split_ifs <;> exact ih h.2 _ _ _ _

/-- A marker outside quotes is found, if no other one follows. -/
theorem lastMarker_marker {before after : List Char} (hbefore : Unmarked before)
    (hafter : '<' ∉ after) :
    lastMarker [] none false false false (before ++ '<' :: '<' :: after) =
      some (before, after) := by
  have hscan := hbefore [] none ('<' :: '<' :: after)
  rw [List.nil_append] at hscan
  rw [hscan]
  cases after with
  | nil => rfl
  | cons c rest =>
      have hc : c ≠ '<' := fun heq => hafter (heq ▸ List.mem_cons_self)
      simp [lastMarker, hc, lastMarker_of_not_mem hafter]

theorem marker?_bare {before : List Char} (h : Unmarked before) :
    marker? (before ++ ['<', '<']) = some (before, none) := by
  rw [marker?, lastMarker_marker h List.not_mem_nil]
  rfl

/-- The ways to write the word of a marker. -/
def spellings (word : List Char) : List (List Char) :=
  [word, '\'' :: (word ++ ['\'']), '"' :: (word ++ ['"']), '-' :: word]

/-- A word that can end an input: characters of a name, at least one. -/
def IsEndWord (word : List Char) : Prop :=
  word ≠ [] ∧ ∀ c ∈ word, isNameChar c = true

theorem isBlank_of_isNameChar {c : Char} (h : isNameChar c = true) : isBlank c = false :=
  (ne_of_not_isWordEnd (isWordEnd_of_isPlain (isPlain_of_isNameChar h))).1

theorem IsEndWord.trim {word : List Char} (h : IsEndWord word) : Text.trim word = word :=
  Text.trim_of_forall (fun c hc => isBlank_of_isNameChar (h.2 c hc))

theorem unquote_quoted {q : Char} (hq : q = '\'' ∨ q = '"') (word : List Char) :
    unquote (q :: (word ++ [q])) = word := by
  simp [unquote, hq]

theorem unquote_word {word : List Char} (h : ∀ c ∈ word, isNameChar c = true) :
    unquote word = word := by
  cases word with
  | nil => rfl
  | cons c rest =>
      obtain ⟨-, hsingle, hdouble, -⟩ := ne_of_isPlain (isPlain_of_isNameChar (h c (by simp)))
      cases hreverse : rest.reverse <;> simp [unquote, hreverse, hsingle, hdouble]

/-- What follows the marker is its word, without the dash in front of it and the quotes around
it. -/
theorem marker?_written {before written word : List Char} (hbefore : Unmarked before)
    (hword : IsEndWord word) (hunquote : unquote written = word)
    (hchars : ∀ c ∈ written, c = '\'' ∨ c = '"' ∨ isNameChar c = true) :
    marker? (before ++ '<' :: '<' :: written) = some (before, some word) ∧
      marker? (before ++ '<' :: '<' :: '-' :: written) = some (before, some word) := by
  have hplain : ∀ c ∈ written, isBlank c = false ∧ c ≠ '<' ∧ c ≠ '-' := by
    intro c hc
    rcases hchars c hc with rfl | rfl | hname
    · decide
    · decide
    · refine ⟨isBlank_of_isNameChar hname, ?_, ?_⟩ <;> rintro rfl <;> exact absurd hname (by decide)
  have hangle : '<' ∉ written := fun hc => (hplain _ hc).2.1 rfl
  have htrim : Text.trim written = written := Text.trim_of_forall (fun c hc => (hplain c hc).1)
  have htrim' : Text.trim ('-' :: written) = '-' :: written := by
    refine Text.trim_of_forall (fun c hc => ?_)
    rcases List.mem_cons.1 hc with rfl | hc
    · decide
    · exact (hplain c hc).1
  obtain ⟨c, rest, rfl⟩ : ∃ c rest, written = c :: rest := by
    refine List.exists_cons_of_ne_nil (fun hnil => hword.1 ?_)
    rw [← hunquote, hnil]
    rfl
  have hdash : c ≠ '-' := (hplain c (by simp)).2.2
  have hend : (word.isEmpty || word.any isBlank) = false := by
    simpa [hword.1] using fun c hc => isBlank_of_isNameChar (hword.2 c hc)
  constructor
  · rw [marker?, lastMarker_marker hbefore hangle]
    simp [htrim, hdash, hunquote, hend]
  · rw [marker?, lastMarker_marker hbefore (by simpa using hangle)]
    simp [htrim', hunquote, hend]

/-- However it is written, the word ends the input. -/
theorem marker?_spelled {before word spelled : List Char} (hbefore : Unmarked before)
    (hword : IsEndWord word) (hspelled : spelled ∈ spellings word) :
    marker? (before ++ '<' :: '<' :: spelled) = some (before, some word) := by
  have hquoted : ∀ q : Char, q = '\'' ∨ q = '"' → ∀ c ∈ q :: (word ++ [q]),
      c = '\'' ∨ c = '"' ∨ isNameChar c = true := by
    intro q hq c hc
    simp only [List.mem_cons, List.mem_append, List.not_mem_nil, or_false] at hc
    rcases hc with rfl | hc | rfl
    · exact hq.imp_right Or.inl
    · exact Or.inr (Or.inr (hword.2 c hc))
    · exact hq.imp_right Or.inl
  have hplain := marker?_written hbefore hword (unquote_word hword.2)
    (fun c hc => Or.inr (Or.inr (hword.2 c hc)))
  simp only [spellings, List.mem_cons, List.not_mem_nil, or_false] at hspelled
  rcases hspelled with rfl | rfl | rfl | rfl
  · exact hplain.1
  · exact (marker?_written hbefore hword (unquote_quoted (Or.inl rfl) word)
      (hquoted _ (Or.inl rfl))).1
  · exact (marker?_written hbefore hword (unquote_quoted (Or.inr rfl) word)
      (hquoted _ (Or.inr rfl))).1
  · exact hplain.2

/-! ## The entry -/

theorem not_isComment_of_not_mem {line : List Char} (h : '#' ∉ line) : isComment line = false := by
  rw [isComment, beq_eq_false_iff_ne]
  intro hfirst
  have hmem : '#' ∈ Text.trimStart line := List.mem_of_mem_head? hfirst
  exact h ((List.dropWhile_sublist isBlank).mem hmem)

/-- The lines of an input go up to the word, which may have white space around it. -/
theorem inputLines_until {word : List Char} (hword : IsEndWord word) {body : List (List Char)}
    (hbody : ∀ line ∈ body, Text.trim line ≠ word) (rest : List (List Char)) :
    inputLines (some word) (body ++ word :: rest) = body := by
  rw [inputLines, List.takeWhile_append_of_pos (fun line hline => by simpa using hbody line hline),
    List.takeWhile_cons_of_neg (by simp [hword.trim]), List.append_nil]

/-- A command of one part, which may be empty. -/
theorem join_singleton_part (part : List Char) :
    Text.join [' '] ([part].filter (fun p => !p.isEmpty)) = part := by
  cases part <;> simp

theorem ofLines_of_marker {texts : List String} {first before : List Char}
    {word : Option (List Char)} {others : List (List Char)}
    (hlines : texts.flatMap (fun t => Text.lines t.toList) = first :: others)
    (hcomment : isComment first = false) (hmarker : marker? first = some (before, word)) :
    ofLines texts = ⟨String.ofList (Text.trim before),
      some (String.ofList (Text.join ['\n'] (inputLines word others)))⟩ := by
  have hcollect : collect (first :: others) =
      ([Text.trim before], some (inputLines word others)) := by
    rw [collect, if_neg (by simp [hcomment]), hmarker]
  rw [ofLines, hlines, hcollect]
  simp only [join_singleton_part, Option.map_some]

/-- Each text of one line is that line, but the empty text is none. -/
theorem flatMap_lines {texts : List String} (h : ∀ t ∈ texts, '\n' ∉ t.toList) :
    texts.flatMap (fun t => Text.lines t.toList) =
      (texts.filter (fun t => t ≠ "")).map String.toList := by
  induction texts with
  | nil => rfl
  | cons t rest ih =>
      rw [List.flatMap_cons, Text.lines_of_no_newline (h t (by simp)),
        ih (fun u hu => h u (List.mem_cons_of_mem t hu))]
      by_cases hempty : t = ""
      · simp [hempty]
      · simp [hempty]

/-- Text of a line without quotes, escapes, markers and comments. -/
def IsPlainLine (text : String) : Prop :=
  ∀ c ∈ text.toList, c ≠ '\\' ∧ c ≠ '\'' ∧ c ≠ '"' ∧ c ≠ '<' ∧ c ≠ '#' ∧ c ≠ '\n'

/-- A plain text with a marker after it, as a line. -/
theorem marked_line {command : String} (hcommand : IsPlainLine command) {written : List Char}
    (hwritten : ∀ c ∈ written, c ≠ '#' ∧ c ≠ '\n') :
    let first := (command ++ " <<" ++ String.ofList written).toList
    first = (command.toList ++ [' ']) ++ '<' :: '<' :: written ∧
      Unmarked (command.toList ++ [' ']) ∧ '\n' ∉ first ∧ isComment first = false := by
  intro first
  have hfirst : first = (command.toList ++ [' ']) ++ '<' :: '<' :: written := by
    simp [first]
  have hmem : ∀ c, c ≠ ' ' → c ≠ '<' → c ∈ first → c ∈ command.toList ∨ c ∈ written := by
    intro c hspace hangle hc
    simpa [hfirst, hspace, hangle] using hc
  refine ⟨hfirst, ?_, fun hc => ?_, not_isComment_of_not_mem (fun hc => ?_)⟩
  · refine Unmarked.append (Unmarked.of_forall (fun c hc => ?_)) (Unmarked.char (by decide))
    obtain ⟨h₁, h₂, h₃, h₄, -⟩ := hcommand c hc
    exact ⟨h₁, h₂, h₃, h₄⟩
  · rcases hmem _ (by decide) (by decide) hc with hc | hc
    · exact (hcommand _ hc).2.2.2.2.2 rfl
    · exact (hwritten _ hc).2 rfl
  · rcases hmem _ (by decide) (by decide) hc with hc | hc
    · exact (hcommand _ hc).2.2.2.2.1 rfl
    · exact (hwritten _ hc).1 rfl

theorem IsEndWord.spelled {word spelled : List Char} (hword : IsEndWord word)
    (hspelled : spelled ∈ spellings word) :
    ∀ c ∈ spelled, c ≠ '#' ∧ c ≠ '\n' ∧ c ≠ '\r' := by
  have hname : ∀ c ∈ word, c ≠ '#' ∧ c ≠ '\n' ∧ c ≠ '\r' := by
    intro c hc
    refine ⟨?_, ?_, ?_⟩ <;> rintro rfl <;> exact absurd (hword.2 _ hc) (by decide)
  simp only [spellings, List.mem_cons, List.not_mem_nil, or_false] at hspelled
  rcases hspelled with rfl | rfl | rfl | rfl
  · exact hname
  · simpa [or_imp, forall_and] using hname
  · simpa [or_imp, forall_and] using hname
  · simpa using hname

section Marked

variable {command word : String} {body : List String}

theorem ofList_join_lines (texts : List String) :
    String.ofList (Text.join ['\n'] (texts.map String.toList)) = "\n".intercalate texts := by
  rw [← String.toList_inj, String.toList_ofList, toList_joined]
  rfl

/-- What is kept of lines that are texts of their own. -/
theorem join_flatMap_lines (hbody : ∀ line ∈ body, '\n' ∉ line.toList) :
    String.ofList (Text.join ['\n'] (body.flatMap (fun t => Text.lines t.toList))) =
      "\n".intercalate (body.filter (fun line => line ≠ "")) := by
  rw [flatMap_lines hbody, ofList_join_lines]

theorem ofLines_bare (hcommand : IsPlainLine command)
    (hbody : ∀ line ∈ body, '\n' ∉ line.toList) :
    ofLines ((command ++ " <<") :: body) = ⟨String.ofList (Text.trim command.toList),
      some ("\n".intercalate (body.filter (fun line => line ≠ "")))⟩ := by
  obtain ⟨hfirst, hunmarked, hline, hcomment⟩ := @marked_line command hcommand [] (by simp)
  rw [String.ofList_nil, String.append_empty] at hfirst hline hcomment
  have hlines : ((command ++ " <<") :: body).flatMap (fun t => Text.lines t.toList) =
      (command ++ " <<").toList :: body.flatMap (fun t => Text.lines t.toList) := by
    rw [List.flatMap_cons, Text.lines_of_no_newline hline, if_neg (by simp)]
    rfl
  have hmarker := marker?_bare hunmarked
  rw [← hfirst] at hmarker
  rw [ofLines_of_marker hlines hcomment hmarker, inputLines, join_flatMap_lines hbody,
    Text.trim_append_blank _ (by decide)]

/-- The line with the marker, as one text among others. -/
theorem ofLines_spelled (hcommand : IsPlainLine command) (hword : IsEndWord word.toList)
    {spelled : List Char} (hspelled : spelled ∈ spellings word.toList) {texts : List String}
    {input others : List (List Char)}
    (hinput : ∀ line ∈ input, Text.trim line ≠ word.toList)
    (hlines : texts.flatMap (fun t => Text.lines t.toList) =
      (command ++ " <<" ++ String.ofList spelled).toList :: (input ++ word.toList :: others)) :
    ofLines texts = ⟨String.ofList (Text.trim command.toList),
      some (String.ofList (Text.join ['\n'] input))⟩ := by
  obtain ⟨hfirst, hunmarked, hline, hcomment⟩ := marked_line hcommand
    (fun c hc => ⟨(hword.spelled hspelled c hc).1, (hword.spelled hspelled c hc).2.1⟩)
  have hmarker := marker?_spelled hunmarked hword hspelled
  rw [← hfirst] at hmarker
  rw [ofLines_of_marker hlines hcomment hmarker, inputLines_until hword hinput,
    Text.trim_append_blank _ (by decide)]

theorem newline_not_mem_marked (hcommand : IsPlainLine command) (hword : IsEndWord word.toList)
    {spelled : List Char} (hspelled : spelled ∈ spellings word.toList) :
    '\n' ∉ (command ++ " <<" ++ String.ofList spelled).toList :=
  (marked_line hcommand (fun c hc =>
    ⟨(hword.spelled hspelled c hc).1, (hword.spelled hspelled c hc).2.1⟩)).2.2.1

theorem IsEndWord.line (hword : IsEndWord word.toList) :
    '\n' ∉ word.toList ∧ '\r' ∉ word.toList := by
  have hown : word.toList ∈ spellings word.toList := by simp [spellings]
  exact ⟨fun hc => (hword.spelled hown _ hc).2.1 rfl, fun hc => (hword.spelled hown _ hc).2.2 rfl⟩

section Spelled

variable (hcommand : IsPlainLine command) (hword : IsEndWord word.toList)
  (hbody : ∀ line ∈ body, '\n' ∉ line.toList)
  (hbefore : ∀ line ∈ body, Text.trim line.toList ≠ word.toList)
  {spelled : List Char} (hspelled : spelled ∈ spellings word.toList)

include hcommand hword hbody hbefore hspelled

/-- Each line a text of its own: those that are empty are no lines. -/
theorem ofLines_apart (rest : List String) :
    ofLines ((command ++ " <<" ++ String.ofList spelled) :: (body ++ word :: rest)) =
      ⟨String.ofList (Text.trim command.toList),
        some ("\n".intercalate (body.filter (fun line => line ≠ "")))⟩ := by
  have hlines : ((command ++ " <<" ++ String.ofList spelled) :: (body ++ word :: rest)).flatMap
        (fun t => Text.lines t.toList) =
      (command ++ " <<" ++ String.ofList spelled).toList ::
        (body.flatMap (fun t => Text.lines t.toList) ++
          word.toList :: rest.flatMap (fun t => Text.lines t.toList)) := by
    rw [List.flatMap_cons, List.flatMap_append, List.flatMap_cons,
      Text.lines_of_no_newline (newline_not_mem_marked hcommand hword hspelled),
      if_neg (by simp), Text.lines_of_no_newline hword.line.1, if_neg hword.1]
    rfl
  have hinput : ∀ line ∈ body.flatMap (fun t => Text.lines t.toList),
      Text.trim line ≠ word.toList := by
    intro line hmem
    rw [flatMap_lines hbody, List.mem_map] at hmem
    obtain ⟨t, ht, rfl⟩ := hmem
    exact hbefore t (List.mem_filter.1 ht).1
  rw [ofLines_spelled hcommand hword hspelled hinput hlines, join_flatMap_lines hbody]

/-- All of it one text: its lines are those that it was joined from. -/
theorem ofLines_joined (hcommandReturn : '\r' ∉ command.toList)
    (hbodyReturn : ∀ line ∈ body, '\r' ∉ line.toList) :
    ofLines ["\n".intercalate ((command ++ " <<" ++ String.ofList spelled) :: body ++ [word])] =
      ⟨String.ofList (Text.trim command.toList), some ("\n".intercalate body)⟩ := by
  have hfirst : '\r' ∉ (command ++ " <<" ++ String.ofList spelled).toList := by
    have hspelledReturn : '\r' ∉ spelled := fun hc => (hword.spelled hspelled _ hc).2.2 rfl
    simp [hcommandReturn, hspelledReturn]
  have hall : ∀ t ∈ ((command ++ " <<" ++ String.ofList spelled) :: body).map String.toList ++
      [word.toList], '\n' ∉ t ∧ '\r' ∉ t := by
    intro t ht
    simp only [List.mem_append, List.mem_map, List.mem_cons, List.not_mem_nil, or_false] at ht
    rcases ht with ⟨u, rfl | hu, rfl⟩ | rfl
    · exact ⟨newline_not_mem_marked hcommand hword hspelled, hfirst⟩
    · exact ⟨hbody u hu, hbodyReturn u hu⟩
    · exact hword.line
  have hlines : ["\n".intercalate ((command ++ " <<" ++ String.ofList spelled) :: body ++
        [word])].flatMap (fun t => Text.lines t.toList) =
      (command ++ " <<" ++ String.ofList spelled).toList ::
        (body.map String.toList ++ word.toList :: []) := by
    rw [List.flatMap_singleton, toList_joined, List.map_append, List.map_singleton]
    exact Text.lines_join hword.1 hall
  have hinput : ∀ line ∈ body.map String.toList, Text.trim line ≠ word.toList := by
    intro line hmem
    obtain ⟨t, ht, rfl⟩ := List.mem_map.1 hmem
    exact hbefore t ht
  rw [ofLines_spelled hcommand hword hspelled hinput hlines, ofList_join_lines]

end Spelled

end Marked

/-- The lines after a marker are the input, up to the word that the marker names, and all of
them if it names none. Texts of one line are kept literally, in order, except that the empty
ones are lost; in an entry that is one text the empty lines are kept as well. -/
theorem ofLines_input {command : String} {body : List String} (hcommand : IsPlainLine command)
    (hbody : ∀ line ∈ body, '\n' ∉ line.toList) :
    let trimmed := String.ofList (Text.trim command.toList)
    let kept := "\n".intercalate (body.filter (fun line => line ≠ ""))
    ofLines ((command ++ " <<") :: body) = ⟨trimmed, some kept⟩ ∧
    (∀ word : String, IsEndWord word.toList →
      (∀ line ∈ body, Text.trim line.toList ≠ word.toList) →
      ∀ spelled ∈ spellings word.toList,
        let first := command ++ " <<" ++ String.ofList spelled
        (∀ rest, ofLines (first :: (body ++ word :: rest)) = ⟨trimmed, some kept⟩) ∧
        (('\r' ∉ command.toList ∧ ∀ line ∈ body, '\r' ∉ line.toList) →
          ofLines ["\n".intercalate (first :: body ++ [word])] =
            ⟨trimmed, some ("\n".intercalate body)⟩)) := by
  intro trimmed kept
  refine ⟨ofLines_bare hcommand hbody, fun word hword hbefore spelled hspelled => ?_⟩
  intro first
  refine ⟨ofLines_apart hcommand hword hbody hbefore hspelled, ?_⟩
  rintro ⟨hcommandReturn, hbodyReturn⟩
  exact ofLines_joined hcommand hword hbody hbefore hspelled hcommandReturn hbodyReturn

theorem isEndWord_eof : IsEndWord "EOF".toList := by
  refine ⟨by simp, fun c hc => ?_⟩
  have hcases : c = 'E' ∨ c = 'O' ∨ c = 'F' := by simpa using hc
  rcases hcases with rfl | rfl | rfl <;> decide

/-- An input with a comment, an escape and an expansion, white space, and a line that only
begins with the end word. -/
theorem ofLines_input_sample :
    let body := ["# x", "  $HOME\\", " \t", "EOF2"]
    IsPlainLine " cat -n" ∧ IsEndWord "EOF".toList ∧ (∀ line ∈ body, '\n' ∉ line.toList) ∧
    (∀ line ∈ body, Text.trim line.toList ≠ "EOF".toList) ∧
    ofLines [" cat -n <<", "# x", "  $HOME\\", " \t", "EOF2"] =
      ⟨"cat -n", some "# x\n  $HOME\\\n \t\nEOF2"⟩ ∧
    ofLines [" cat -n <<'EOF'", "# x", "  $HOME\\", " \t", "EOF2", "EOF", "echo"] =
      ⟨"cat -n", some "# x\n  $HOME\\\n \t\nEOF2"⟩ ∧
    ofLines [" cat -n <<-EOF\n# x\n  $HOME\\\n \t\nEOF2\nEOF"] =
      ⟨"cat -n", some "# x\n  $HOME\\\n \t\nEOF2"⟩ := by
  intro body
  have hcommand : IsPlainLine " cat -n" := by simp [IsPlainLine]
  have hword : IsEndWord "EOF".toList := isEndWord_eof
  have hbody : ∀ line ∈ body, '\n' ∉ line.toList := by decide +kernel
  have hbefore : ∀ line ∈ body, Text.trim line.toList ≠ "EOF".toList := by decide +kernel
  obtain ⟨hbare, hmarked⟩ := ofLines_input hcommand hbody
  have hspelled := hmarked "EOF" hword hbefore
  have hquoted := (hspelled ['\'', 'E', 'O', 'F', '\''] (by decide +kernel)).1 ["echo"]
  have hdashed := (hspelled ['-', 'E', 'O', 'F'] (by decide +kernel)).2 (by decide +kernel)
  have htrimmed : String.ofList (Text.trim " cat -n".toList) = "cat -n" := by decide +kernel
  have hkept : "\n".intercalate (body.filter (fun line => line ≠ "")) =
      "# x\n  $HOME\\\n \t\nEOF2" := by decide +kernel
  have hwhole : "\n".intercalate body = "# x\n  $HOME\\\n \t\nEOF2" := by decide +kernel
  rw [htrimmed, hkept] at hbare hquoted
  rw [htrimmed, hwhole] at hdashed
  exact ⟨hcommand, hword, hbody, hbefore, hbare, hquoted, hdashed⟩

/-- The lines between the marker and its word are the input, as they are. -/
def KeepsInput (command word : String) (body : List String) : Prop :=
  ofLines ((command ++ " <<" ++ word) :: (body ++ [word])) =
    ⟨String.ofList (Text.trim command.toList), some ("\n".intercalate body)⟩

/-- An empty line of the input is lost. -/
theorem not_keepsInput :
    IsPlainLine "cat" ∧ IsEndWord "EOF".toList ∧
      (∀ line ∈ ["a", "", "b"], '\n' ∉ line.toList ∧ Text.trim line.toList ≠ "EOF".toList) ∧
      ¬ KeepsInput "cat" "EOF" ["a", "", "b"] := by
  refine ⟨by simp [IsPlainLine], isEndWord_eof, by decide +kernel, ?_⟩
  have hread : ofLines (("cat" ++ " <<" ++ "EOF") :: (["a", "", "b"] ++ ["EOF"])) =
      ⟨"cat", some "a\nb"⟩ := by decide +kernel
  have hwritten : "\n".intercalate ["a", "", "b"] = "a\n\nb" := by decide +kernel
  rw [KeepsInput, hread, hwritten]
  simp

end EntryText

end ScriptRunner

import Mathlib.Data.List.DropRight
import Mathlib.Data.List.TakeWhile
import ScriptRunner.Proofs.Text.Joining
import ScriptRunner.Text.Lines

/-!
# ScriptRunner.Proofs.Text.Lines

White space at the ends of a text, its lines, and captured output as one value.

`Text.lines` takes one carriage return off a line, and only where a line feed follows, and it does
not count an empty line at the end. `Text.collapse` makes nothing of either: it takes off all
carriage returns at the end of a line, and trims the space that an empty last line would leave. So
it sees of a text only what stands between its line feeds (`Text.collapse_eq`), and which kind of
line break a text has is of no consequence (`Text.collapse_joined`).

Main statement: `collapseOutput_of_lines`.
-/

namespace ScriptRunner

namespace Text

variable {text : List Char}

/-! ## Trimming -/

theorem trimEnd_of_not_blank (h : ∀ c ∈ text.getLast?, isBlank c = false) :
    trimEnd text = text := by
  cases text using List.reverseRecOn with
  | nil => rfl
  | append_singleton init c =>
      rw [List.getLast?_concat] at h
      exact List.rdropWhile_concat_neg isBlank init c (by simp [h c rfl])

/-- A text without white space at its ends is trimmed already. -/
theorem trim_of_not_blank (hfirst : ∀ c ∈ text.head?, isBlank c = false)
    (hlast : ∀ c ∈ text.getLast?, isBlank c = false) : trim text = text := by
  have hstart : trimStart text = text := by
    cases text with
    | nil => rfl
    | cons c rest => exact List.dropWhile_cons_of_neg (by simp [hfirst c rfl])
  rw [trim, hstart, trimEnd_of_not_blank hlast]

theorem trim_of_forall (h : ∀ c ∈ text, isBlank c = false) : trim text = text :=
  trim_of_not_blank (fun c hc => h c (List.mem_of_mem_head? hc))
    (fun c hc => h c (List.mem_of_getLast? hc))

/-- White space after a text is trimmed off with what the text ends with. -/
theorem trim_append_blank (text : List Char) {c : Char} (h : isBlank c = true) :
    trim (text ++ [c]) = trim text := by
  have hend : ∀ t : List Char, trimEnd (t ++ [c]) = trimEnd t :=
    fun t => List.rdropWhile_concat_pos isBlank t c h
  rw [trim, trimStart, List.dropWhile_append]
  split
  · next hempty =>
      rw [trim, trimStart, List.isEmpty_iff.1 hempty, List.dropWhile_cons_of_pos h]
      rfl
  · rw [hend, trim, trimStart]

theorem trimEnd_begins (text : List Char) : trimEnd text <+: text :=
  List.rdropWhile_prefix isBlank text

theorem trim_within (text : List Char) : trim text <:+: text :=
  (trimEnd_begins _).isInfix.trans (List.dropWhile_suffix isBlank).isInfix

/-- Nothing is left of white space alone, and something of every other text. -/
theorem trim_eq_nil_iff : trim text = [] ↔ ∀ c ∈ text, isBlank c = true := by
  have hend : ∀ t : List Char, trimEnd t = [] ↔ ∀ c ∈ t, isBlank c = true :=
    fun t => List.rdropWhile_eq_nil_iff
  rw [trim, hend, trimStart]
  constructor
  · intro h c hc
    rw [← List.takeWhile_append_dropWhile (p := isBlank) (l := text), List.mem_append] at hc
    exact hc.elim (fun htaken => List.mem_takeWhile_imp htaken) (h c)
  · exact fun h c hc => h c ((List.dropWhile_sublist isBlank).mem hc)

theorem not_isBlank_getLast_trim (text : List Char) :
    ∀ c ∈ (trim text).getLast?, isBlank c = false := by
  intro c hc
  obtain ⟨hne, rfl⟩ := List.mem_getLast?_eq_getLast hc
  exact Bool.eq_false_iff.2 (List.rdropWhile_last_not isBlank (trimStart text) hne)

theorem not_isBlank_head_trim (text : List Char) :
    ∀ c ∈ (trim text).head?, isBlank c = false := by
  intro c hc
  obtain ⟨rest, hrest⟩ := List.head?_eq_some_iff.1 hc
  -- what is left at the front is not taken off at the end
  obtain ⟨blanks, hstart⟩ := trimEnd_begins (trimStart text)
  have hfirst : text.dropWhile isBlank = c :: (rest ++ blanks) := by
    rw [← trimStart, ← hstart, ← trim, hrest, List.cons_append]
  have hnot := List.head?_dropWhile_not isBlank text
  rwa [hfirst] at hnot

/-! ## Lines -/

/-- A line without the carriage returns at its end. -/
def bareLine (line : List Char) : List Char := dropEndWhile (· == '\r') line

theorem bareLine_begins (line : List Char) : bareLine line <+: line :=
  List.rdropWhile_prefix (· == '\r') line

theorem bareLine_concat (line : List Char) : bareLine (line ++ ['\r']) = bareLine line :=
  List.rdropWhile_concat_pos (· == '\r') line '\r' rfl

theorem bareLine_of_not_blank {line : List Char} (h : ∀ c ∈ line.getLast?, isBlank c = false) :
    bareLine line = line := by
  cases line using List.reverseRecOn with
  | nil => rfl
  | append_singleton init c =>
      rw [List.getLast?_concat] at h
      refine List.rdropWhile_concat_neg (· == '\r') init c (fun hreturn => ?_)
      obtain rfl := beq_iff_eq.1 hreturn
      exact absurd (h '\r' rfl) (by decide)

theorem bareLine_stripLast (line : List Char) : bareLine (stripLast '\r' line) = bareLine line := by
  cases line using List.reverseRecOn with
  | nil => rfl
  | append_singleton init c =>
      rw [stripLast, List.reverse_concat]
      by_cases hreturn : c = '\r'
      · subst hreturn
        rw [bareLine_concat]
        simp
      · simp [hreturn]

theorem isBlank_bareLine_iff (line : List Char) :
    (∀ c ∈ bareLine line, isBlank c = true) ↔ ∀ c ∈ line, isBlank c = true := by
  refine ⟨fun h c hc => ?_, fun h c hc => h c ((bareLine_begins line).mem hc)⟩
  have hparts : bareLine line ++ line.rtakeWhile (· == '\r') = line :=
    List.rdropWhile_append_rtakeWhile
  rw [← hparts, List.mem_append] at hc
  rcases hc with hkept | htaken
  · exact h c hkept
  · have hreturn : (c == '\r') = true := List.mem_rtakeWhile_imp (p := (· == '\r')) htaken
    obtain rfl := beq_iff_eq.1 hreturn
    decide

/-- The lines of a text, without carriage returns at their ends, are what stands between its line
feeds, except that an empty line at the end is no line. -/
theorem map_bareLine_linesFrom {current : List Char} (hcurrent : '\n' ∉ current)
    (text : List Char) :
    ∃ last, (last = [] ∨ last = [[]]) ∧
      ((current ++ text).splitOn '\n').map bareLine =
        (linesFrom current text).map bareLine ++ last := by
  induction text generalizing current with
  | nil =>
      rw [List.append_nil, List.splitOn_eq_singleton hcurrent]
      cases current with
      | nil => exact ⟨[[]], Or.inr rfl, rfl⟩
      | cons c rest => exact ⟨[], Or.inl rfl, rfl⟩
  | cons c rest ih =>
      by_cases hbreak : c = '\n'
      · subst hbreak
        obtain ⟨last, hlast, hrest⟩ := ih List.not_mem_nil
        refine ⟨last, hlast, ?_⟩
        rw [List.nil_append] at hrest
        rw [List.splitOn_append_cons_self, List.splitOn_eq_singleton hcurrent,
          List.singleton_append, List.map_cons, hrest, linesFrom, if_pos rfl, List.map_cons,
          bareLine_stripLast, List.cons_append]
      · have hcurrent' : '\n' ∉ current ++ [c] := by
          simp [hcurrent, Ne.symm hbreak]
        have hmoved : current ++ c :: rest = current ++ [c] ++ rest := by simp
        rw [linesFrom, if_neg hbreak, hmoved]
        exact ih hcurrent'

/-! ## Collapsing -/

/-- An empty line at the end leaves nothing behind. -/
theorem trim_join_concat_nil (lines : List (List Char)) :
    trim (join [' '] (lines ++ [[]])) = trim (join [' '] lines) := by
  cases lines using List.reverseRecOn with
  | nil => rfl
  | append_singleton init line =>
      have hspace : join [' '] (init ++ [line] ++ [[]]) = join [' '] (init ++ [line]) ++ [' '] := by
        rw [join_concat, join_concat, List.flatMap_append, List.flatMap_singleton]
        simp only [List.append_assoc, List.append_nil]
      rw [hspace, trim_append_blank _ (by decide)]

/-- What captured output comes to depends on what stands between its line feeds. -/
theorem collapse_eq (text : List Char) :
    collapse text = trim (join [' '] ((text.splitOn '\n').map bareLine)) := by
  obtain ⟨last, hlast, hlines⟩ := map_bareLine_linesFrom List.not_mem_nil text
  rw [List.nil_append] at hlines
  rw [hlines]
  rcases hlast with rfl | rfl
  · rw [List.append_nil]
    rfl
  · rw [trim_join_concat_nil]
    rfl

/-- The characters of joined lines are those of the lines and of the separators. -/
theorem mem_join {sep : List Char} {lines : List (List Char)} {c : Char}
    (h : c ∈ join sep lines) : c ∈ sep ∨ ∃ line ∈ lines, c ∈ line := by
  cases lines with
  | nil => cases h
  | cons line rest =>
      rw [join_cons, List.mem_append] at h
      rcases h with hline | hrest
      · exact Or.inr ⟨line, List.mem_cons_self, hline⟩
      · obtain ⟨other, hother, hc⟩ := List.mem_flatMap.1 hrest
        rcases List.mem_append.1 hc with hsep | hc
        · exact Or.inl hsep
        · exact Or.inr ⟨other, List.mem_cons_of_mem _ hother, hc⟩

theorem mem_join_of_mem {sep line : List Char} {lines : List (List Char)} {c : Char}
    (hline : line ∈ lines) (hc : c ∈ line) : c ∈ join sep lines := by
  cases lines with
  | nil => cases hline
  | cons first rest =>
      rw [join_cons, List.mem_append]
      rcases List.mem_cons.1 hline with rfl | hline
      · exact Or.inl hc
      · exact Or.inr (List.mem_flatMap.2 ⟨line, hline, List.mem_append_right sep hc⟩)

theorem newline_not_mem_collapse (text : List Char) : '\n' ∉ collapse text := by
  intro hmem
  rw [collapse_eq] at hmem
  rcases mem_join ((trim_within _).mem hmem) with hspace | ⟨line, hline, hc⟩
  · exact absurd hspace (by decide)
  · obtain ⟨piece, hpiece, rfl⟩ := List.mem_map.1 hline
    exact not_mem_of_mem_splitOn hpiece ((bareLine_begins piece).mem hc)

/-- White space between other separators than white space. -/
theorem isBlank_splitOn_iff (text : List Char) :
    (∀ piece ∈ text.splitOn '\n', ∀ c ∈ piece, isBlank c = true) ↔
      ∀ c ∈ text, isBlank c = true := by
  have htext : join ['\n'] (text.splitOn '\n') = text := by
    rw [join_eq_intercalate, List.intercalate_splitOn]
  constructor
  · intro h c hc
    rw [← htext] at hc
    rcases mem_join hc with hbreak | ⟨piece, hpiece, hc⟩
    · obtain rfl := List.mem_singleton.1 hbreak
      decide
    · exact h piece hpiece c hc
  · intro h piece hpiece c hc
    refine h c ?_
    rw [← htext]
    exact mem_join_of_mem hpiece hc

/-- Nothing but white space comes to nothing. -/
theorem collapse_eq_nil_iff (text : List Char) :
    collapse text = [] ↔ ∀ c ∈ text, isBlank c = true := by
  rw [collapse_eq, trim_eq_nil_iff, ← isBlank_splitOn_iff text]
  constructor
  · intro h piece hpiece
    rw [← isBlank_bareLine_iff]
    exact fun c hc => h c (mem_join_of_mem (List.mem_map_of_mem hpiece) hc)
  · intro h c hc
    rcases mem_join hc with hspace | ⟨line, hline, hc⟩
    · obtain rfl := List.mem_singleton.1 hspace
      decide
    · obtain ⟨piece, hpiece, rfl⟩ := List.mem_map.1 hline
      exact (isBlank_bareLine_iff piece).2 (h piece hpiece) c hc

/-- One line without white space at its ends stays as it is. -/
theorem collapse_of_line (hline : '\n' ∉ text) (hfirst : ∀ c ∈ text.head?, isBlank c = false)
    (hlast : ∀ c ∈ text.getLast?, isBlank c = false) : collapse text = text := by
  rw [collapse_eq, List.splitOn_eq_singleton hline, List.map_singleton,
    bareLine_of_not_blank hlast, join_singleton, trim_of_not_blank hfirst hlast]

theorem collapse_collapse (text : List Char) : collapse (collapse text) = collapse text := by
  refine collapse_of_line (newline_not_mem_collapse text) ?_ ?_
  · exact not_isBlank_head_trim _
  · exact not_isBlank_getLast_trim _

/-! ## Either kind of line break -/

/-- The line breaks that there are. -/
inductive LineBreak
  | feed
  | returnFeed
  deriving DecidableEq, Repr

/-- A line break as it is written. -/
def LineBreak.chars : LineBreak → List Char
  | .feed => ['\n']
  | .returnFeed => ['\r', '\n']

/-- The text has these lines, with a line break of either kind between each two. -/
inductive Joined : List (List Char) → List Char → Prop
  | nothing : Joined [] []
  | last (line : List Char) : Joined [line] line
  | next (line : List Char) (lineBreak : LineBreak) {lines : List (List Char)} {text : List Char}
    (hne : lines ≠ []) (hrest : Joined lines text) :
    Joined (line :: lines) (line ++ lineBreak.chars ++ text)

/-- A line break of either kind leaves the line before it bare. -/
theorem map_bareLine_break {line : List Char} (hline : '\n' ∉ line) (lineBreak : LineBreak)
    (text : List Char) :
    ((line ++ lineBreak.chars ++ text).splitOn '\n').map bareLine =
      bareLine line :: (text.splitOn '\n').map bareLine := by
  cases lineBreak with
  | feed =>
      have hparts : line ++ LineBreak.feed.chars ++ text = line ++ '\n' :: text := by
        simp [LineBreak.chars]
      rw [hparts, List.splitOn_append_cons_self, List.splitOn_eq_singleton hline,
        List.singleton_append, List.map_cons]
  | returnFeed =>
      have hparts : line ++ LineBreak.returnFeed.chars ++ text =
          line ++ ['\r'] ++ '\n' :: text := by
        simp [LineBreak.chars]
      have hline' : '\n' ∉ line ++ ['\r'] := by
        simp [hline]
      rw [hparts, List.splitOn_append_cons_self, List.splitOn_eq_singleton hline',
        List.singleton_append, List.map_cons, bareLine_concat]

/-- What stands between the line feeds of joined lines are the lines, once they are bare. -/
theorem Joined.map_bareLine {lines : List (List Char)} (h : Joined lines text)
    (hlines : ∀ line ∈ lines, '\n' ∉ line) (hne : lines ≠ []) :
    (text.splitOn '\n').map bareLine = lines.map bareLine := by
  induction h with
  | nothing => exact absurd rfl hne
  | last line => rw [List.splitOn_eq_singleton (hlines line List.mem_cons_self)]
  | next line lineBreak hmore hrest ih =>
      rw [map_bareLine_break (hlines line List.mem_cons_self),
        ih (fun other hother => hlines other (List.mem_cons_of_mem _ hother)) hmore, List.map_cons]

/-- Whatever line breaks a text has, it comes to its bare lines with a space for each break. -/
theorem collapse_joined {lines : List (List Char)} (h : Joined lines text)
    (hlines : ∀ line ∈ lines, '\n' ∉ line) :
    collapse text = trim (join [' '] (lines.map bareLine)) := by
  by_cases hne : lines = []
  · subst hne
    cases h
    rfl
  · rw [collapse_eq, h.map_bareLine hlines hne]

/-- A text is what stands between its line feeds, joined by line feeds. -/
theorem joined_splitOn (text : List Char) : Joined (text.splitOn '\n') text := by
  have htext : join ['\n'] (text.splitOn '\n') = text := by
    rw [join_eq_intercalate, List.intercalate_splitOn]
  have hjoin : ∀ lines : List (List Char), Joined lines (join ['\n'] lines) := by
    intro lines
    induction lines with
    | nil => exact .nothing
    | cons line rest ih =>
        cases rest with
        | nil => exact .last line
        | cons other rest => exact .next line .feed (List.cons_ne_nil _ _) ih
  have h := hjoin (text.splitOn '\n')
  rwa [htext] at h

/-- A line break at the end begins an empty line. -/
theorem Joined.append_break {lines : List (List Char)} (h : Joined lines text) (hne : lines ≠ [])
    (lineBreak : LineBreak) : Joined (lines ++ [[]]) (text ++ lineBreak.chars) := by
  induction h with
  | nothing => exact absurd rfl hne
  | last line =>
      have hend := Joined.next line lineBreak (List.cons_ne_nil [] []) (.last [])
      rwa [List.append_nil] at hend
  | next line other hmore hrest ih =>
      rw [List.append_assoc]
      exact .next line other (by simp) (ih hmore)

/-- Line breaks at the end of a text make no difference. -/
theorem collapse_append_breaks (text : List Char) (breaks : List LineBreak) :
    collapse (text ++ breaks.flatMap LineBreak.chars) = collapse text := by
  induction breaks generalizing text with
  | nil => rw [List.flatMap_nil, List.append_nil]
  | cons lineBreak rest ih =>
      have hone : collapse (text ++ lineBreak.chars) = collapse text := by
        have hjoined := (joined_splitOn text).append_break (List.splitOn_ne_nil '\n' text) lineBreak
        have hlines : ∀ line ∈ text.splitOn '\n' ++ [[]], '\n' ∉ line := by
          intro line hline
          rcases List.mem_append.1 hline with hpiece | hempty
          · exact not_mem_of_mem_splitOn hpiece
          · obtain rfl := List.mem_singleton.1 hempty
            exact List.not_mem_nil
        rw [collapse_joined hjoined hlines, List.map_append, collapse_eq]
        exact trim_join_concat_nil _
      rw [List.flatMap_cons, ← List.append_assoc, ih, hone]

end Text

/-- Captured output as one value.

The value is on one line, without white space at its ends; it is empty if nothing but white space
was printed; and it is a value that stays as it is. Line breaks at the end of the output are not
seen. Whichever line breaks stand between its lines, the value is the lines without carriage
returns at their ends, one space for each break, and without white space at either end. -/
theorem collapseOutput_of_lines (output : String) :
    let value := collapseOutput output
    '\n' ∉ value.toList ∧
    (∀ c ∈ value.toList.head?, isBlank c = false) ∧
    (∀ c ∈ value.toList.getLast?, isBlank c = false) ∧
    (value = "" ↔ ∀ c ∈ output.toList, isBlank c = true) ∧
    collapseOutput value = value ∧
    (∀ breaks : List Text.LineBreak,
      collapseOutput (output ++ String.ofList (breaks.flatMap Text.LineBreak.chars)) = value) ∧
    ∀ lines : List (List Char), (∀ line ∈ lines, '\n' ∉ line) → Text.Joined lines output.toList →
      value.toList = Text.trim (Text.join [' '] (lines.map Text.bareLine)) := by
  intro value
  have hvalue : value.toList = Text.collapse output.toList := String.toList_ofList
  refine ⟨?_, ?_, ?_, ?_, ?_, fun breaks => ?_, fun lines hlines hjoined => ?_⟩
  · rw [hvalue]
    exact Text.newline_not_mem_collapse _
  · rw [hvalue]
    exact Text.not_isBlank_head_trim _
  · rw [hvalue]
    exact Text.not_isBlank_getLast_trim _
  · rw [← String.toList_eq_nil_iff, hvalue, Text.collapse_eq_nil_iff]
  · rw [collapseOutput, hvalue, Text.collapse_collapse]
    rfl
  · rw [collapseOutput, String.toList_append, String.toList_ofList, Text.collapse_append_breaks]
    rfl
  · rw [hvalue]
    exact Text.collapse_joined hjoined hlines

/-- Four lines with both kinds of line breaks. The first and the last line end with a carriage
return of their own, and of the two between them one is blank and the other empty. -/
theorem collapseOutput_of_lines_sample :
    let lines := ["a\r".toList, [' '], [], "b\r".toList]
    (∀ line ∈ lines, '\n' ∉ line) ∧ Text.Joined lines "a\r\r\n \r\n\nb\r".toList ∧
      (collapseOutput "a\r\r\n \r\n\nb\r").toList = "a    b".toList ∧
      collapseOutput ("a\r\r\n \r\n\nb\r" ++ "\n\r\n") = "a    b" := by
  intro lines
  have hlines : ∀ line ∈ lines, '\n' ∉ line := by decide
  have hjoined : Text.Joined lines "a\r\r\n \r\n\nb\r".toList :=
    .next "a\r".toList .returnFeed (by decide)
      (.next [' '] .returnFeed (by decide) (.next [] .feed (by decide) (.last "b\r".toList)))
  obtain ⟨-, -, -, -, -, hbreaks, hvalue⟩ := collapseOutput_of_lines "a\r\r\n \r\n\nb\r"
  refine ⟨hlines, hjoined, hvalue lines hlines hjoined, ?_⟩
  exact hbreaks [.feed, .returnFeed]

end ScriptRunner

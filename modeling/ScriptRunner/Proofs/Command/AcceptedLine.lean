import Mathlib.Data.List.DropRight
import ScriptRunner.Proofs.Command.InputText
import ScriptRunner.Proofs.Command.Outline
import ScriptRunner.Proofs.Command.Trimming

/-!
# ScriptRunner.Proofs.Command.AcceptedLine

Accepted texts of one line as entries.

An entry is searched for the marker of an input before it is read, by a flat scan. The reader
refuses every `<` that it comes upon outside of quotes, so an accepted line can have a marker
only where the scan and the reader do not agree about quotes, or inside of an enclosure. Where
the scan finds no marker in the enclosures either, and each of them closes the quotes that it
opens (`Enclosure.Covered`), it finds none (`Outline.marks_eq_false`).

Main statement: `ofLines_accepted`. In a comment the scan does find markers, and the lines
after such a line become its input (`not_keepsAccepted`).
-/

namespace ScriptRunner

namespace Reader

/-! ## The scan for markers -/

/-- Whether the scan for markers finds one. -/
def Quotes.marks (q : Quotes) : List Char → Bool
  | [] => false
  | c :: rest =>
    if q = .outside ∧ c = '<' then
      match rest with
      | '<' :: '<' :: rest₂ => q.marks rest₂
      | '<' :: _ => true
      | other => q.marks other
    else (q.next c).marks rest

/-- A character that is not a `<` outside of quotes. -/
theorem lastMarker_next {q : Quotes} {c : Char} (h : q = .outside → c ≠ '<') (seen : List Char)
    (found : Option (List Char × List Char)) (rest : List Char) :
    EntryText.lastMarker seen found q.inSingle q.inDouble q.escaped (c :: rest) =
      EntryText.lastMarker (seen ++ [c]) found (q.next c).inSingle (q.next c).inDouble
        (q.next c).escaped rest := by
  obtain ⟨inSingle, inDouble, escaped⟩ := q
  have hquoted : c = '<' → inSingle = true ∨ inDouble = true ∨ escaped = true := by
    intro hc
    by_contra hnone
    simp only [not_or, Bool.not_eq_true] at hnone
    obtain ⟨rfl, rfl, rfl⟩ := hnone
    exact h rfl hc
  rw [EntryText.lastMarker_cons _ _ _ hquoted]
  unfold Quotes.next
  cases escaped with
  | true => rfl
  | false => split_ifs <;> rfl

theorem marks_next {q : Quotes} {c : Char} (h : q = .outside → c ≠ '<') (rest : List Char) :
    q.marks (c :: rest) = (q.next c).marks rest := by
  rw [Quotes.marks.eq_def]
  exact if_neg (fun hq => h hq.1 hq.2)

/-- What follows a `<` outside of quotes: two more, or one that is the last, or none. -/
theorem angle_cases (rest : List Char) :
    (∃ more, rest = '<' :: '<' :: more) ∨
      (∃ more, rest = '<' :: more ∧ more.head? ≠ some '<') ∨ rest.head? ≠ some '<' := by
  by_cases hfirst : rest.head? = some '<'
  · obtain ⟨more, rfl⟩ := List.head?_eq_some_iff.1 hfirst
    by_cases hsecond : more.head? = some '<'
    · obtain ⟨more₂, rfl⟩ := List.head?_eq_some_iff.1 hsecond
      exact Or.inl ⟨more₂, rfl⟩
    · exact Or.inr (Or.inl ⟨more, rfl, hsecond⟩)
  · exact Or.inr (Or.inr hfirst)

theorem marks_pair {rest : List Char} (h : rest.head? ≠ some '<') :
    Quotes.outside.marks ('<' :: '<' :: rest) = true := by
  cases rest with
  | nil => rfl
  | cons d more => simp_all [Quotes.marks]

theorem marks_single {rest : List Char} (h : rest.head? ≠ some '<') :
    Quotes.outside.marks ('<' :: rest) = Quotes.outside.marks rest := by
  cases rest with
  | nil => rfl
  | cons d more =>
      rw [Quotes.marks.eq_def]
      simp_all

section Scan

variable {seen : List Char} {found : Option (List Char × List Char)} {rest : List Char}

theorem lastMarker_pair (h : rest.head? ≠ some '<') :
    EntryText.lastMarker seen found false false false ('<' :: '<' :: rest) =
      EntryText.lastMarker (seen ++ ['<', '<']) (some (seen, rest)) false false false rest := by
  cases rest with
  | nil => rfl
  | cons d more => simp_all [EntryText.lastMarker]

theorem lastMarker_angle (h : rest.head? ≠ some '<') :
    EntryText.lastMarker seen found false false false ('<' :: rest) =
      EntryText.lastMarker (seen ++ ['<']) found false false false rest := by
  cases rest with
  | nil => rfl
  | cons d more =>
      rw [EntryText.lastMarker.eq_def]
      simp_all

end Scan

/-- The scan finds a marker, or keeps one that it has found. -/
theorem isSome_lastMarker (q : Quotes) (seen : List Char)
    (found : Option (List Char × List Char)) (text : List Char) :
    (EntryText.lastMarker seen found q.inSingle q.inDouble q.escaped text).isSome =
      (found.isSome || q.marks text) := by
  induction hlength : text.length using Nat.strongRecOn generalizing q seen found text with
  | _ length ih =>
      cases text with
      | nil => simp [EntryText.lastMarker, Quotes.marks]
      | cons c rest =>
          rw [List.length_cons] at hlength
          by_cases hangle : q = .outside ∧ c = '<'
          · obtain ⟨rfl, rfl⟩ := hangle
            -- the scan looks at up to three characters here
            rcases angle_cases rest with ⟨more, rfl⟩ | ⟨more, rfl, hmore⟩ | hrest
            · simp only [List.length_cons] at hlength
              exact ih more.length (by omega) .outside _ _ more rfl
            · rw [List.length_cons] at hlength
              have hpair := ih more.length (by omega) .outside (seen ++ ['<', '<'])
                (some (seen, more)) more rfl
              rw [marks_pair hmore, Bool.or_true]
              exact (congrArg Option.isSome (lastMarker_pair hmore)).trans hpair
            · have hnext := ih rest.length (by omega) .outside (seen ++ ['<']) found rest rfl
              rw [marks_single hrest, ← hnext]
              exact congrArg Option.isSome (lastMarker_angle hrest)
          · have hplain : q = .outside → c ≠ '<' := fun hq hc => hangle ⟨hq, hc⟩
            rw [lastMarker_next hplain, marks_next hplain, ih rest.length (by omega) _ _ _ _ rfl]

/-- A text that ends before a character other than `<` is scanned by itself. -/
theorem marks_append {q : Quotes} {c : Char} (hc : c ≠ '<') (text rest : List Char) :
    q.marks (text ++ c :: rest) = (q.marks text || ((q.after text).next c).marks rest) := by
  induction hlength : text.length using Nat.strongRecOn generalizing q text with
  | _ length ih =>
      have hhead : ∀ more : List Char, more.head? ≠ some '<' →
          (more ++ c :: rest).head? ≠ some '<' := by
        intro more hmore
        cases more with
        | nil => simpa using hc
        | cons d more => simpa using hmore
      cases text with
      | nil =>
          rw [List.nil_append, marks_next (fun _ => hc)]
          simp [Quotes.marks]
      | cons d text =>
          rw [List.length_cons] at hlength
          by_cases hangle : q = .outside ∧ d = '<'
          · obtain ⟨rfl, rfl⟩ := hangle
            rcases angle_cases text with ⟨more, rfl⟩ | ⟨more, rfl, hmore⟩ | htext
            · simp only [List.length_cons] at hlength
              exact ih more.length (by omega) more rfl
            · rw [List.cons_append, List.cons_append, marks_pair (hhead more hmore),
                marks_pair hmore, Bool.true_or]
            · rw [List.cons_append, marks_single (hhead text htext), marks_single htext]
              exact ih text.length (by omega) text rfl
          · have hplain : q = .outside → d ≠ '<' := fun hq hd => hangle ⟨hq, hd⟩
            rw [List.cons_append, marks_next hplain, marks_next hplain]
            exact ih text.length (by omega) text rfl

theorem marks_eq_false_of_no_pair {q : Quotes} {text : List Char}
    (h : ¬ ['<', '<'] <:+: text) : q.marks text = false := by
  induction text generalizing q with
  | nil => rfl
  | cons c rest ih =>
      have hrest : ¬ ['<', '<'] <:+: rest :=
        fun hpair => h (hpair.trans (List.infix_cons List.infix_rfl))
      by_cases hangle : q = .outside ∧ c = '<'
      · obtain ⟨rfl, rfl⟩ := hangle
        have hsingle : rest.head? ≠ some '<' := by
          intro hhead
          obtain ⟨more, rfl⟩ := List.head?_eq_some_iff.1 hhead
          exact h ⟨[], more, rfl⟩
        rw [marks_single hsingle, ih hrest]
      · rw [marks_next (fun hq hc => hangle ⟨hq, hc⟩), ih hrest]

/-! ## Accepted lines -/

/-- The scan for markers comes out of the enclosure as it went in: it finds no marker there, and
if anything can follow, the quotes that are opened are closed. -/
def Enclosure.Covered (e : Enclosure) : Prop :=
  (Quotes.within e.double).marks e.text = false ∧
    (e.opener = '#' ∨ (Quotes.within e.double).after e.text = .within e.double)

instance (e : Enclosure) : Decidable e.Covered :=
  inferInstanceAs (Decidable (_ ∧ _))

/-- A comment ends with its line, and everything else with a mark of its own. -/
theorem Enclosing.closer {e : Enclosing} {c : Char} (h : e.next c = none) :
    (e.opener = '#' ∧ c = '\n') ∨ (e.opener ≠ '#' ∧ (c = '\x7d' ∨ c = ')' ∨ c = '\x60')) := by
  cases e with
  | comment =>
      simp only [next] at h
      split_ifs at h with hline
      exact Or.inl ⟨rfl, hline⟩
  | braces depth =>
      simp only [next] at h
      split_ifs at h with hopen hclose
      exact Or.inr ⟨by simp [opener], Or.inl hclose⟩
  | substitution scan =>
      have hclose := (Nesting.of_next_eq_none (Option.map_eq_none_iff.1 h)).1
      exact Or.inr ⟨by simp [opener], Or.inr (Or.inl hclose)⟩
  | backquote escaped =>
      cases escaped with
      | true => cases h
      | false =>
          simp only [next] at h
          split_ifs at h with hclose
          exact Or.inr ⟨by simp [opener], Or.inr (Or.inr hclose)⟩

/-- Neither quotes nor markers have anything to do with the character. -/
def IsUnquoting (c : Char) : Prop := c ≠ '\\' ∧ c ≠ '\'' ∧ c ≠ '"' ∧ c ≠ '<'

theorem IsUnquoting.next {c : Char} (h : IsUnquoting c) (double : Bool) :
    (Quotes.within double).next c = .within double :=
  Quotes.next_within h.1 h.2.1 h.2.2.1 double

theorem IsUnquoting.marks {c : Char} (h : IsUnquoting c) (double : Bool) (rest : List Char) :
    (Quotes.within double).marks (c :: rest) = (Quotes.within double).marks rest := by
  rw [marks_next (fun _ => h.2.2.2), h.next]

theorem Enclosing.isUnquoting_opener (e : Enclosing) : IsUnquoting e.opener := by
  cases e <;> simp [IsUnquoting, opener]

/-- In an accepted line the scan finds no marker but those in enclosures. -/
theorem Outline.marks_eq_false {q : Quotes} {level : Nat} {dollar : Bool} {text : List Char}
    {enclosures : List Enclosure} (h : Outline q level dollar text enclosures)
    (hcovered : ∀ e ∈ enclosures, e.Covered) (hline : '\n' ∉ text) : q.marks text = false := by
  induction h with
  | done => rfl
  | char hplain hdollar hrest ih =>
      rw [List.mem_cons, not_or] at hline
      rw [marks_next (fun hq => (hplain hq).1)]
      exact ih hcovered hline.2
  | opensArray hrest ih =>
      rw [List.mem_cons, not_or] at hline
      have hopen : IsUnquoting '(' := by simp [IsUnquoting]
      rw [hopen.marks]
      exact ih hcovered hline.2
  | closesArray hrest ih =>
      rw [List.mem_cons, not_or] at hline
      have hclose : IsUnquoting ')' := by simp [IsUnquoting]
      rw [hclose.marks]
      exact ih hcovered hline.2
  | comment body =>
      have hhash : IsUnquoting '#' := by simp [IsUnquoting]
      rw [hhash.marks]
      exact (hcovered _ List.mem_cons_self).1
  | @enclosed double dollar level c close e e' body rest enclosures hopen hbody hclose hrest ih =>
      simp only [List.mem_cons, List.mem_append, not_or] at hline
      obtain ⟨hmarks, hquotes⟩ := hcovered _ List.mem_cons_self
      have hopener := Enclosing.opener_of_opened hopen
      have hclosed : c ≠ '#' ∧ IsUnquoting close := by
        rcases Enclosing.closer hclose with ⟨-, hend⟩ | ⟨hkind, hend⟩
        · exact absurd hend.symm hline.2.2.1
        · rw [Enclosing.opener_of_run hbody, hopener] at hkind
          refine ⟨hkind, ?_⟩
          rcases hend with rfl | rfl | rfl <;> simp [IsUnquoting]
      have hafter := hquotes.resolve_left hclosed.1
      rw [← hopener, e.isUnquoting_opener.marks, marks_append hclosed.2.2.2.2, hmarks, hafter,
        hclosed.2.next, Bool.false_or]
      exact ih (fun e he => hcovered e (List.mem_cons_of_mem _ he)) hline.2.2.2

theorem foldl_step_comment (inner : List Char → Reading) (f : Frame) {text : List Char}
    (h : '\n' ∉ text) : text.foldl (step inner) (f.goTo .comment) = f.goTo .comment := by
  induction text with
  | nil => rfl
  | cons c rest ih =>
      rw [List.mem_cons, not_or] at h
      rw [List.foldl_cons, step_comment, if_neg (Ne.symm h.1)]
      exact ih h.2

/-- An accepted line that is a comment has no statements. -/
theorem read_comment {text : List Char} {statements : List Statement} (hline : '\n' ∉ text)
    (hcomment : EntryText.isComment text = true) (h : (read text).result = .ok statements) :
    read text = ⟨.ok [], []⟩ := by
  rw [EntryText.isComment, beq_iff_eq] at hcomment
  obtain ⟨body, hbody⟩ := List.head?_eq_some_iff.1 hcomment
  have hmem : '\n' ∉ body := by
    intro hc
    have htrimmed : '\n' ∈ Text.trimStart text := by simp [hbody, hc]
    exact hline ((List.dropWhile_sublist isBlank).mem htrimmed)
  rw [read_eq] at h
  rw [read_eq, ← readWith_trimStart read hline h, hbody, readWith, List.foldl_cons]
  have hopen : step read State.start '#' = Frame.goTo ⟨[], Draft.start, []⟩ .comment := rfl
  rw [hopen, foldl_step_comment read _ hmem]
  rfl

end Reader

namespace EntryText

open Reader

theorem marker?_eq_none {line : List Char} (h : Quotes.outside.marks line = false) :
    marker? line = none := by
  have hscan := isSome_lastMarker .outside [] none line
  rw [h] at hscan
  have hnone : lastMarker [] none false false false line = none := by
    simpa [Quotes.within] using hscan
  rw [marker?, hnone]

theorem commandPart_eq_trim {line : List Char} (h : (Text.trim line).getLast? ≠ some '\\') :
    commandPart line = Text.trim line := by
  rw [commandPart, Text.stripLast_of_ne h]
  exact List.rdropWhile_idempotent isBlank (Text.trimStart line)

theorem collect_comment {line : List Char} (h : isComment line = true) (rest : List (List Char)) :
    collect (line :: rest) = ([], none) := by
  rw [collect, if_pos h]

theorem collect_command {line : List Char} (hcomment : isComment line = false)
    (hmarker : marker? line = none) (rest : List (List Char)) :
    collect (line :: rest) = (commandPart line :: (collect rest).1, (collect rest).2) := by
  rw [collect, if_neg (by simp [hcomment]), hmarker]

/-- An accepted line has no marker. -/
theorem marker?_of_accepted {text : List Char} {statements : List Statement}
    (haccepted : (Reader.read text).result = .ok statements) (hline : '\n' ∉ text)
    (hlast : (Text.trim text).getLast? ≠ some '\\')
    (hcovered : ['<', '<'] <:+: text → ∀ e ∈ enclosures text, e.Covered) :
    marker? text = none := by
  have hbackslash : text.getLast? ≠ some '\\' := by
    intro hend
    obtain ⟨front, rfl⟩ := List.getLast?_eq_some_iff.1 hend
    rw [trim_concat (by decide), List.getLast?_concat] at hlast
    exact hlast rfl
  by_cases hpair : ['<', '<'] <:+: text
  · have houtline := outline_of_accepted haccepted hbackslash
    exact marker?_eq_none (houtline.marks_eq_false (hcovered hpair) hline)
  · exact marker?_eq_none (marks_eq_false_of_no_pair hpair)

section Line

variable {text : String} (hline : '\n' ∉ text.toList)

include hline

/-- A comment is no command, and what follows it is not looked at. -/
theorem ofLines_comment (hcomment : isComment text.toList = true) (lines : List String) :
    ofLines (text :: lines) = ⟨"", none⟩ := by
  have hne : text.toList ≠ [] := by
    intro hempty
    simp [hempty, isComment] at hcomment
  rw [ofLines, List.flatMap_cons, Text.lines_of_no_newline hline, if_neg hne,
    List.singleton_append, collect_comment hcomment]
  rfl

variable (hcomment : isComment text.toList = false) (hmarker : marker? text.toList = none)

include hcomment hmarker

theorem input_ofLines_cons (lines : List String) :
    (ofLines (text :: lines)).input = (ofLines lines).input := by
  simp only [ofLines, List.flatMap_cons, Text.lines_of_no_newline hline]
  split
  · rfl
  · rw [List.singleton_append, collect_command hcomment hmarker]

theorem command_ofLines_singleton (hlast : (Text.trim text.toList).getLast? ≠ some '\\') :
    (ofLines [text]).command = String.ofList (Text.trim text.toList) := by
  rw [ofLines, List.flatMap_singleton, Text.lines_of_no_newline hline]
  by_cases hempty : text.toList = []
  · rw [if_pos hempty, hempty]
    rfl
  · rw [if_neg hempty, collect_command hcomment hmarker, commandPart_eq_trim hlast]
    exact congrArg String.ofList (join_singleton_part _)

end Line

/-- An accepted line is left alone: alone it is read as it stands and has no input, and unless
it is a comment, lines after it have the input that they have without it. Only a line with a
`<<` somewhere can be taken for another one. -/
theorem ofLines_accepted {text : String} {statements : List Statement}
    (haccepted : (readStatements text).result = .ok statements) (hline : '\n' ∉ text.toList)
    (hlast : (Text.trim text.toList).getLast? ≠ some '\\')
    (hcovered : ['<', '<'] <:+: text.toList → ∀ e ∈ enclosures text.toList, e.Covered) :
    (ofLines [text]).input = none ∧
      readStatements (ofLines [text]).command = readStatements text ∧
      ∀ lines, (ofLines (text :: lines)).input =
        if isComment text.toList then none else (ofLines lines).input := by
  cases hcomment : isComment text.toList with
  | true =>
      refine ⟨?_, ?_, fun lines => ?_⟩
      · rw [ofLines_comment hline hcomment]
      · rw [ofLines_comment hline hcomment]
        exact (read_comment hline hcomment haccepted).symm
      · rw [ofLines_comment hline hcomment, if_pos rfl]
  | false =>
      have hmarker := marker?_of_accepted haccepted hline hlast hcovered
      refine ⟨?_, ?_, fun lines => ?_⟩
      · rw [input_ofLines_cons hline hcomment hmarker]
        rfl
      · rw [command_ofLines_singleton hline hcomment hmarker hlast, readStatements,
          String.toList_ofList]
        exact read_trim hline hlast haccepted
      · rw [input_ofLines_cons hline hcomment hmarker, if_neg (by simp)]

/-- A line with braces, and with markers that are quoted and escaped, in a substitution and in
the quotes of a comment. -/
def coveredLine : String := " f '<<' \\<\\< \"$(g '<<' \"x\")\" $\x7bh:-i\x7d # it's <<x "

theorem ofLines_accepted_sample :
    (∃ statements, (readStatements coveredLine).result = .ok statements) ∧
      '\n' ∉ coveredLine.toList ∧ (Text.trim coveredLine.toList).getLast? ≠ some '\\' ∧
      (∀ e ∈ enclosures coveredLine.toList, e.Covered) ∧
      (ofLines [coveredLine]).input = none ∧
      readStatements (ofLines [coveredLine]).command = readStatements coveredLine ∧
      (ofLines [coveredLine, "cat <<", "x"]).input = some "x" := by
  have haccepted : ∃ statements, (readStatements coveredLine).result = .ok statements := ⟨_, rfl⟩
  have hline : '\n' ∉ coveredLine.toList := by decide
  have hlast : (Text.trim coveredLine.toList).getLast? ≠ some '\\' := by decide +kernel
  have hcovered : ∀ e ∈ enclosures coveredLine.toList, e.Covered := by decide +kernel
  obtain ⟨statements, hread⟩ := haccepted
  obtain ⟨hinput, hcommand, hbefore⟩ := ofLines_accepted hread hline hlast (fun _ => hcovered)
  have hcomment : isComment coveredLine.toList = false := by decide +kernel
  have hafter : (ofLines ["cat <<", "x"]).input = some "x" := by decide +kernel
  have hlines := hbefore ["cat <<", "x"]
  rw [hcomment, if_neg (by simp), hafter] at hlines
  exact ⟨⟨statements, hread⟩, hline, hlast, hcovered, hinput, hcommand, hlines⟩

/-- An accepted line is read as it stands, and the lines after it have the input that they have
without it. -/
def KeepsAccepted (text : String) : Prop :=
  ∀ statements, (readStatements text).result = .ok statements → '\n' ∉ text.toList →
    (Text.trim text.toList).getLast? ≠ some '\\' →
    (ofLines [text]).input = none ∧
      (readStatements (ofLines [text]).command).result = .ok statements ∧
      ∀ lines, (ofLines (text :: lines)).input =
        if isComment text.toList then none else (ofLines lines).input

/-- What looks like a marker in a comment is one. -/
theorem not_keepsAccepted : ¬ KeepsAccepted "echo a # <<EOF" := by
  intro h
  have haccepted : (readStatements "echo a # <<EOF").result =
      .ok [.command (.literal "echo") [.literal "a"] []] := rfl
  have hinput : (ofLines ["echo a # <<EOF"]).input = some "" := by decide +kernel
  have hnone := (h _ haccepted (by decide) (by decide +kernel)).1
  rw [hinput] at hnone
  cases hnone

end EntryText

end ScriptRunner

import Mathlib.Algebra.Ring.Parity
import Mathlib.Data.List.DropRight
import ScriptRunner.Proofs.Command.AcceptedLine
import ScriptRunner.Proofs.Text.Joining

/-!
# ScriptRunner.Proofs.Command.Continuation

Commands over several lines.

The lines of an entry are joined by spaces, and a backslash at the end of a line is dropped. It is
dropped without a look at what stands before it, while for the reader a run of backslashes is a run
of pairs, and only one that is left over escapes what follows. So where the run is odd, the last
backslash is the one that would escape the space, and the line loses nothing else. Where the run is
even, half of a pair is lost. At the end of the command that makes no difference, since a single
backslash stands for itself there (`backslash_twice`). Before another line the space becomes a part
of the word (`not_joinsBySpaces`).

Main statement: `ofLines_continued`.
-/

namespace ScriptRunner

namespace Text

/-- The number of backslashes that a text ends with. -/
def backslashes (text : List Char) : Nat := (text.rtakeWhile (· == '\\')).length

theorem backslashes_concat (text : List Char) :
    backslashes (text ++ ['\\']) = backslashes text + 1 := by
  rw [backslashes, List.rtakeWhile_concat_pos _ _ _ rfl, List.length_append]
  rfl

theorem backslashes_concat_of_ne {c : Char} (hc : c ≠ '\\') (text : List Char) :
    backslashes (text ++ [c]) = 0 := by
  rw [backslashes, List.rtakeWhile_concat_neg _ _ _ (by simpa using hc)]
  rfl

theorem exists_of_getLast {text : List Char} (h : text.getLast? = some '\\') :
    ∃ front, text = front ++ ['\\'] ∧ backslashes text = backslashes front + 1 := by
  obtain ⟨front, rfl⟩ := List.getLast?_eq_some_iff.1 h
  exact ⟨front, rfl, backslashes_concat front⟩

theorem backslashes_of_getLast {text : List Char} (h : text.getLast? ≠ some '\\') :
    backslashes text = 0 := by
  cases text using List.reverseRecOn with
  | nil => rfl
  | append_singleton front c =>
      rw [List.getLast?_concat] at h
      exact backslashes_concat_of_ne (fun hc => h (congrArg some hc)) front

/-- An even run of backslashes is empty, or has a pair at its end. -/
theorem even_backslashes {text : List Char} (h : Even (backslashes text)) :
    text.getLast? ≠ some '\\' ∨
      ∃ front, text = front ++ ['\\', '\\'] ∧ Even (backslashes front) := by
  by_cases hlast : text.getLast? = some '\\'
  · obtain ⟨middle, rfl, hmiddle⟩ := exists_of_getLast hlast
    rw [hmiddle, Nat.even_add_one, Nat.not_even_iff_odd] at h
    have hpair : middle.getLast? = some '\\' := by
      by_contra hsingle
      rw [backslashes_of_getLast hsingle] at h
      exact absurd h (by decide)
    obtain ⟨front, rfl, hfront⟩ := exists_of_getLast hpair
    rw [hfront, Nat.odd_add_one, Nat.not_odd_iff_even] at h
    exact Or.inr ⟨front, by simp, h⟩
  · exact Or.inl hlast

theorem stripLast_concat (c : Char) (text : List Char) : stripLast c (text ++ [c]) = text := by
  simp [stripLast]

end Text

namespace Reader

/-! ## Pairs of backslashes -/

/-- The reader is not about to escape the next character. -/
def Position.Unescaped : Position → Prop
  | .word _ _ .escape => False
  | _ => True

theorem Position.unescaped_of_ne {q : Position} (h : ∀ place p, q ≠ .word place p .escape) :
    q.Unescaped := by
  cases q with
  | word place p mode =>
      cases mode with
      | escape => exact h place p rfl
      | _ => exact True.intro
  | _ => exact True.intro

theorem stepGap_backslash (f : Frame) : stepGap f '\\' = f.inWord .plain Pieces.start .escape := by
  obtain ⟨done, ⟨assignments, name, args⟩, ignored⟩ := f
  cases name <;> rfl

section Backslashes

variable (inner : List Char → Reading) {s : State}

/-- A pair of backslashes escapes nothing that follows, and at the end of the text it is read like
one backslash. -/
theorem backslash_twice (hs : s.At Position.Unescaped) :
    (step inner (step inner s '\\') '\\').At Position.Unescaped ∧
      finish (step inner (step inner s '\\') '\\') = finish (step inner s '\\') := by
  cases s with
  | halted halt ignored => exact ⟨True.intro, rfl⟩
  | running done draft position ignored =>
      cases position with
      | gap =>
          rw [step, stepGap_backslash]
          exact ⟨True.intro, rfl⟩
      | operator redirection run => cases redirection <;> exact ⟨True.intro, rfl⟩
      | word place p mode =>
          cases mode with
          | escape => exact hs.elim
          | dollar double => cases double <;> exact ⟨True.intro, rfl⟩
          | name double letters => cases double <;> exact ⟨True.intro, rfl⟩
          | parens double depth inSingle inDouble escaped text =>
              -- the scan for the end of a substitution has flags of its own
              cases escaped <;> cases inSingle <;> exact ⟨True.intro, rfl⟩
          | _ => exact ⟨True.intro, rfl⟩
      | _ => exact ⟨True.intro, rfl⟩

theorem unescaped_step (s : State) {c : Char} (hc : c ≠ '\\') :
    (step inner s c).At Position.Unescaped :=
  (step_not_escape inner s hc).mono (fun _ => Position.unescaped_of_ne)

/-- After an even number of backslashes nothing is escaped. -/
theorem unescaped_foldl (hs : s.At Position.Unescaped) {text : List Char}
    (heven : Even (Text.backslashes text)) :
    (text.foldl (step inner) s).At Position.Unescaped := by
  -- the run of backslashes is taken off pair by pair
  induction hlength : text.length using Nat.strongRecOn generalizing text with
  | _ length ih =>
      rcases Text.even_backslashes heven with hlast | ⟨front, rfl, hfront⟩
      · cases text using List.reverseRecOn with
        | nil => exact hs
        | append_singleton front c =>
            rw [List.getLast?_concat] at hlast
            rw [List.foldl_append]
            exact unescaped_step inner _ (fun hc => hlast (congrArg some hc))
      · have hbefore := ih front.length (by simp [← hlength]) hfront rfl
        rw [List.foldl_append]
        exact (backslash_twice inner hbefore).1

/-- At the end of a text the second of a pair of backslashes makes no difference. -/
theorem finish_pair (hs : s.At Position.Unescaped) {front : List Char}
    (heven : Even (Text.backslashes front)) :
    finish ((front ++ ['\\', '\\']).foldl (step inner) s) =
      finish ((front ++ ['\\']).foldl (step inner) s) := by
  rw [List.foldl_append, List.foldl_append]
  exact (backslash_twice inner (unescaped_foldl inner hs heven)).2

end Backslashes

end Reader

namespace EntryText

open Reader

/-! ## The parts of the command -/

/-- A line without comments, markers and white space at its ends. -/
structure IsCommandLine (line : String) : Prop where
  nonempty : line ≠ ""
  newline : '\n' ∉ line.toList
  hash : '#' ∉ line.toList
  angle : '<' ∉ line.toList
  trimmed : Text.trim line.toList = line.toList

instance (line : String) : Decidable (IsCommandLine line) :=
  decidable_of_iff
    (line ≠ "" ∧ '\n' ∉ line.toList ∧ '#' ∉ line.toList ∧ '<' ∉ line.toList ∧
      Text.trim line.toList = line.toList)
    ⟨fun ⟨hne, hnewline, hhash, hangle, htrim⟩ => ⟨hne, hnewline, hhash, hangle, htrim⟩,
      fun h => ⟨h.nonempty, h.newline, h.hash, h.angle, h.trimmed⟩⟩

/-- The last backslash of the line is one that the backslash before it escapes. -/
def EndsEscaped (line : String) : Prop :=
  0 < Text.backslashes line.toList ∧ Even (Text.backslashes line.toList)

instance (line : String) : Decidable (EndsEscaped line) :=
  inferInstanceAs (Decidable (_ ∧ _))

/-- The line without the backslash that escapes what follows it, and the white space before that
backslash. -/
def uncontinued (line : String) : String :=
  if Odd (Text.backslashes line.toList) then String.ofList (Text.trimEnd line.toList.dropLast)
  else line

/-- What is left of the lines, without those that nothing is left of. -/
def nonemptyParts (part : String → List Char) (lines : List String) : List (List Char) :=
  (lines.map part).filter (fun p => !p.isEmpty)

/-- What is left of a line where it is joined with the others. -/
abbrev joinedPart (line : String) : List Char := commandPart line.toList

/-- What should be left of it. -/
abbrev meantPart (line : String) : List Char := (uncontinued line).toList

section Lines

variable {line : String} (hline : IsCommandLine line)

include hline

theorem commandPart_of_not_escaped (h : ¬ EndsEscaped line) :
    joinedPart line = meantPart line := by
  by_cases hlast : line.toList.getLast? = some '\\'
  · obtain ⟨front, hfront, hcount⟩ := Text.exists_of_getLast hlast
    have hodd : Odd (Text.backslashes line.toList) :=
      Nat.not_even_iff_odd.1 (fun heven => h ⟨by omega, heven⟩)
    rw [meantPart, uncontinued, if_pos hodd, joinedPart, commandPart, hline.trimmed, hfront,
      Text.stripLast_concat, List.dropLast_concat, String.toList_ofList]
  · have hnone := Text.backslashes_of_getLast hlast
    have htrim : (Text.trim line.toList).getLast? ≠ some '\\' := by rwa [hline.trimmed]
    rw [meantPart, uncontinued, hnone, if_neg (by decide), joinedPart, commandPart_eq_trim htrim,
      hline.trimmed]

theorem commandPart_of_escaped (h : EndsEscaped line) :
    ∃ front, Even (Text.backslashes front) ∧ joinedPart line = front ++ ['\\'] ∧
      meantPart line = front ++ ['\\', '\\'] := by
  rcases Text.even_backslashes h.2 with hlast | ⟨front, hfront, heven⟩
  · exact absurd (Text.backslashes_of_getLast hlast) (Nat.ne_of_gt h.1)
  · refine ⟨front, heven, ?_, ?_⟩
    · have hsplit : front ++ ['\\', '\\'] = (front ++ ['\\']) ++ ['\\'] := by simp
      rw [joinedPart, commandPart, hline.trimmed, hfront, hsplit, Text.stripLast_concat]
      exact List.rdropWhile_concat_neg isBlank front '\\' (by decide)
    · rw [meantPart, uncontinued, if_neg (Nat.not_odd_iff_even.2 h.2), hfront]

end Lines

theorem collect_lines {lines : List String} (hlines : ∀ line ∈ lines, IsCommandLine line) :
    collect (lines.map String.toList) = (lines.map joinedPart, none) := by
  induction lines with
  | nil => rfl
  | cons line rest ih =>
      have hline := hlines line List.mem_cons_self
      have hmarker : marker? line.toList = none := by
        rw [marker?, lastMarker_of_not_mem hline.angle]
      rw [List.map_cons, collect_command (not_isComment_of_not_mem hline.hash) hmarker,
        ih (fun l hl => hlines l (List.mem_cons_of_mem line hl))]
      rfl

/-- No line of a command has a marker, and each gives a part of it. -/
theorem ofLines_lines {lines : List String} (hlines : ∀ line ∈ lines, IsCommandLine line) :
    ofLines lines = ⟨String.ofList (Text.join [' ']
      (nonemptyParts joinedPart lines)), none⟩ := by
  have hkept : lines.filter (fun t => t ≠ "") = lines :=
    List.filter_eq_self.2 (fun t ht => by simpa using (hlines t ht).nonempty)
  rw [ofLines, flatMap_lines (fun line hline => (hlines line hline).newline), hkept,
    collect_lines hlines]
  rfl

/-! ## Reading the parts -/

theorem nonemptyParts_nil (part : String → List Char) : nonemptyParts part [] = [] := rfl

theorem nonemptyParts_cons (part : String → List Char) (line : String) (rest : List String) :
    nonemptyParts part (line :: rest) =
      if part line = [] then nonemptyParts part rest
      else part line :: nonemptyParts part rest := by
  rw [nonemptyParts, List.map_cons, List.filter_cons]
  cases part line <;> rfl

theorem nonemptyParts_of_forall {part : String → List Char} {lines : List String}
    (h : ∀ line ∈ lines, part line = []) : nonemptyParts part lines = [] := by
  induction lines with
  | nil => rfl
  | cons line rest ih =>
      rw [nonemptyParts_cons, if_pos (h line List.mem_cons_self)]
      exact ih (fun l hl => h l (List.mem_cons_of_mem line hl))

/-- If an escaped backslash is at the end of no line but the last one that something is left of,
that backslash is all that is lost. -/
theorem parts_cases {lines : List String} (hlines : ∀ line ∈ lines, IsCommandLine line)
    (hescaped : lines.Pairwise (fun line later => EndsEscaped line → later = "\\")) :
    nonemptyParts joinedPart lines = nonemptyParts meantPart lines ∨
      ∃ before front, Even (Text.backslashes front) ∧
        nonemptyParts joinedPart lines = before ++ [front ++ ['\\']] ∧
        nonemptyParts meantPart lines = before ++ [front ++ ['\\', '\\']] := by
  induction lines with
  | nil =>
      rw [nonemptyParts_nil, nonemptyParts_nil]
      exact Or.inl rfl
  | cons line rest ih =>
      obtain ⟨hlater, hrest⟩ := List.pairwise_cons.1 hescaped
      have hline := hlines line List.mem_cons_self
      by_cases hend : EndsEscaped line
      · -- nothing is left of the lines that follow
        obtain ⟨front, heven, hpart, hmeant⟩ := commandPart_of_escaped hline hend
        have hvanish : ∀ (part : String → List Char), part "\\" = [] →
            nonemptyParts part rest = [] := fun part hpart =>
          nonemptyParts_of_forall (fun l hl => hlater l hl hend ▸ hpart)
        refine Or.inr ⟨[], front, heven, ?_, ?_⟩
        · rw [nonemptyParts_cons, hpart, if_neg (by simp), hvanish _ rfl]
          rfl
        · rw [nonemptyParts_cons, hmeant, if_neg (by simp), hvanish _ rfl]
          rfl
      · have hpart := commandPart_of_not_escaped hline hend
        rw [nonemptyParts_cons, nonemptyParts_cons, hpart]
        rcases ih (fun l hl => hlines l (List.mem_cons_of_mem line hl)) hrest with
          hsame | ⟨before, front, heven, hparts, hmeant⟩
        · rw [hsame]
          exact Or.inl rfl
        · rw [hparts, hmeant]
          split_ifs
          · exact Or.inr ⟨before, front, heven, rfl, rfl⟩
          · exact Or.inr ⟨meantPart line :: before, front, heven, rfl, rfl⟩

/-- Up to its last part the command ends in a space, or has not begun. -/
theorem backslashes_before (before : List (List Char)) :
    Text.backslashes (before.flatMap (fun t => t ++ [' '])) = 0 := by
  cases before using List.reverseRecOn with
  | nil => rfl
  | append_singleton before t =>
      rw [List.flatMap_append, List.flatMap_singleton, ← List.append_assoc]
      exact Text.backslashes_concat_of_ne (by decide) _

theorem read_join_pair (before : List (List Char)) {front : List Char}
    (heven : Even (Text.backslashes front)) :
    read (Text.join [' '] (before ++ [front ++ ['\\']])) =
      read (Text.join [' '] (before ++ [front ++ ['\\', '\\']])) := by
  have hstart : State.start.At Position.Unescaped := True.intro
  have hbefore : ((before.flatMap (fun t => t ++ [' '])).foldl (step read) State.start).At
      Position.Unescaped :=
    unescaped_foldl read hstart (by simp [backslashes_before])
  have hread : ∀ t, read (Text.join [' '] (before ++ [t])) = finish (t.foldl (step read)
      ((before.flatMap (fun t => t ++ [' '])).foldl (step read) State.start)) := by
    intro t
    rw [Text.join_concat, read_eq, readWith, List.foldl_append]
  rw [hread, hread]
  exact (finish_pair read hbefore heven).symm

/-- The parts that are meant, as the lines that they are. -/
theorem toList_uncontinued (lines : List String) :
    ((lines.map uncontinued).filter (fun t => t ≠ "")).map String.toList =
      nonemptyParts meantPart lines := by
  induction lines with
  | nil => rfl
  | cons line rest ih =>
      rw [nonemptyParts_cons, List.map_cons, List.filter_cons]
      split_ifs with hkept hempty
      · exact absurd hempty (by simpa [meantPart] using hkept)
      · rw [List.map_cons, ih]
      · exact ih
      · exact absurd hkept (by simp_all [meantPart])

/-- A backslash continues a line where it is one that escapes what follows. The lines of a command
are read as they are, joined by spaces, without these backslashes, if no line ends in a backslash
that is itself escaped, except for the last one that something is left of. -/
theorem ofLines_continued {lines : List String} (hlines : ∀ line ∈ lines, IsCommandLine line)
    (hescaped : lines.Pairwise (fun line later => EndsEscaped line → later = "\\")) :
    (ofLines lines).input = none ∧
      readStatements (ofLines lines).command =
        readStatements (" ".intercalate ((lines.map uncontinued).filter (fun t => t ≠ ""))) ∧
      ((∀ line ∈ lines, Even (Text.backslashes line.toList)) →
        readStatements (ofLines lines).command = readStatements (" ".intercalate lines)) := by
  have hread : readStatements (ofLines lines).command =
      readStatements (" ".intercalate ((lines.map uncontinued).filter (fun t => t ≠ ""))) := by
    rw [ofLines_lines hlines, readStatements, readStatements, String.toList_ofList, toList_joined,
      toList_uncontinued]
    rcases parts_cases hlines hescaped with hsame | ⟨before, front, heven, hparts, hmeant⟩
    · rw [hsame]
      rfl
    · rw [hparts, hmeant]
      exact read_join_pair before heven
  refine ⟨by rw [ofLines_lines hlines], hread, fun heven => ?_⟩
  have hsame : lines.map uncontinued = lines := by
    refine (List.map_congr_left (fun line hline => ?_)).trans (List.map_id lines)
    rw [uncontinued, if_neg (Nat.not_odd_iff_even.2 (heven line hline)), id]
  have hkept : lines.filter (fun t => t ≠ "") = lines :=
    List.filter_eq_self.2 (fun t ht => by simpa using (hlines t ht).nonempty)
  rw [hread, hsame, hkept]

/-- Lines that end in one and in three backslashes, two lines of nothing else, and a line that ends
in a pair. -/
def continuedLines : List String := ["echo 'a' \\", "\\", "b\\\\\\", "\"c\"\\\\", "\\"]

theorem ofLines_continued_sample :
    (∀ line ∈ continuedLines, IsCommandLine line) ∧
      continuedLines.Pairwise (fun line later => EndsEscaped line → later = "\\") ∧
      (ofLines continuedLines).input = none ∧
      readStatements (ofLines continuedLines).command =
        readStatements "echo 'a' b\\\\ \"c\"\\\\" ∧
      readStatements (ofLines ["echo a", "b\\\\"]).command = readStatements "echo a b\\\\" := by
  have hlines : ∀ line ∈ continuedLines, IsCommandLine line := by decide +kernel
  have hescaped : continuedLines.Pairwise (fun line later => EndsEscaped line → later = "\\") := by
    decide +kernel
  have hmeant : " ".intercalate ((continuedLines.map uncontinued).filter (fun t => t ≠ "")) =
      "echo 'a' b\\\\ \"c\"\\\\" := by
    decide +kernel
  obtain ⟨hinput, hread, -⟩ := ofLines_continued hlines hescaped
  rw [hmeant] at hread
  have hevenLines : ∀ line ∈ ["echo a", "b\\\\"], IsCommandLine line := by decide +kernel
  obtain ⟨-, -, heven⟩ := ofLines_continued hevenLines (by decide +kernel)
  exact ⟨hlines, hescaped, hinput, hread, heven (by decide +kernel)⟩

/-- Accepted lines that end in no backslash, or in one that is escaped, are read as they are, joined
by spaces. -/
def JoinsBySpaces (lines : List String) : Prop :=
  (∀ line ∈ lines, IsCommandLine line ∧
    (∃ statements, (readStatements line).result = .ok statements) ∧
      Even (Text.backslashes line.toList)) →
    (readStatements (ofLines lines).command).result =
      (readStatements (" ".intercalate lines)).result

/-- Before another line, half of a pair of backslashes escapes the space. -/
theorem not_joinsBySpaces : ¬ JoinsBySpaces ["echo a\\\\", "b"] := by
  intro h
  have hfirst : (readStatements "echo a\\\\").result =
      .ok [.command (.literal "echo") [.literal "a\\"] []] := rfl
  have hsecond : (readStatements "b").result = .ok [.command (.literal "b") [] []] := rfl
  have hlines : ∀ line ∈ ["echo a\\\\", "b"], IsCommandLine line ∧
      (∃ statements, (readStatements line).result = .ok statements) ∧
        Even (Text.backslashes line.toList) := by
    simp only [List.forall_mem_cons, List.not_mem_nil, false_imp_iff, implies_true, and_true]
    exact ⟨⟨by decide +kernel, ⟨_, hfirst⟩, by decide +kernel⟩,
      ⟨by decide +kernel, ⟨_, hsecond⟩, by decide +kernel⟩⟩
  have hcommand : (ofLines ["echo a\\\\", "b"]).command = "echo a\\ b" := by decide +kernel
  have hread : (readStatements "echo a\\ b").result =
      .ok [.command (.literal "echo") [.literal "a b"] []] := rfl
  have hmeant : (readStatements (" ".intercalate ["echo a\\\\", "b"])).result =
      .ok [.command (.literal "echo") [.literal "a\\", .literal "b"] []] := by
    have hjoined : " ".intercalate ["echo a\\\\", "b"] = "echo a\\\\ b" := by decide +kernel
    rw [hjoined]
    rfl
  have hsame := h hlines
  rw [hcommand, hread, hmeant] at hsame
  simp at hsame

end EntryText

end ScriptRunner

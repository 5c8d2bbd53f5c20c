import ScriptRunner.Proofs.Command.Depth
import ScriptRunner.Proofs.Command.LiteralCommand

/-!
# ScriptRunner.Proofs.Command.QuotingStyles

The ways to quote a text all mean that text.

A `Segment` is a text in one of three styles, each with its own rule for what a backslash
escapes. Within one word the style can change anywhere. Wherever the reader is in the word, a
segment adds its text to it and leaves the reader outside quotes again (`AtWord.foldl_segment`), so
the segments before it do not matter, and segments one after another add the texts one after another
(`AtWord.foldl_segments`).

Main statement: `readStatements_segments`.
-/

namespace ScriptRunner

/-- A text in the style in which it is written. -/
inductive Segment
  /-- Between apostrophes. -/
  | single (text : List Char) (closed : '\'' ∉ text)
  /-- Between double quotes, with a backslash where a character has a meaning there. -/
  | double (text : List Char)
  /-- With a backslash before every character. After a backslash a line feed would vanish. -/
  | escaped (text : List Char) (written : text ≠ []) (line : '\n' ∉ text)

namespace Segment

open Reader

/-- What the segment stands for. -/
def text : Segment → List Char
  | single text _ => text
  | double text => text
  | escaped text _ _ => text

/-- Whether there are quotes around the text. -/
def isQuoted : Segment → Bool
  | single .. => true
  | double _ => true
  | escaped .. => false

/-- A character as it is written between double quotes. -/
def escapeDouble (c : Char) : List Char :=
  if isDoubleEscapable c then ['\\', c] else [c]

/-- The segment as it is written. -/
def write : Segment → List Char
  | single text _ => '\'' :: (text ++ ['\''])
  | double text => '"' :: (text.flatMap escapeDouble ++ ['"'])
  | escaped text _ _ => text.flatMap (fun c => ['\\', c])

/-- The segments with nothing between them. -/
def writeAll (segments : List Segment) : String :=
  String.ofList (segments.flatMap write)

/-- The texts with nothing between them. -/
def textOfAll (segments : List Segment) : String :=
  String.ofList (segments.flatMap text)

/-- A segment without any text has quotes to show where it is. -/
theorem isQuoted_of_text_eq_nil {segment : Segment} (h : segment.text = []) :
    segment.isQuoted = true := by
  cases segment with
  | single text closed => rfl
  | double text => rfl
  | escaped text written line => exact absurd h written

end Segment

namespace Reader

theorem Pieces.addText_openQuote (p : Pieces) (text : List Char) :
    p.openQuote.addText text false = p.addText text true := by
  simp [addText, openQuote]

section Styles

variable (inner : List Char → Reading) (f : Frame) (place : Place)

/-- Between double quotes a backslash escapes exactly what would not be literal without it. -/
theorem foldl_step_escapeDouble (p : Pieces) (c : Char) :
    (Segment.escapeDouble c).foldl (step inner) (f.inWord place p .double) =
      f.inWord place (p.addChar c) .double := by
  unfold Segment.escapeDouble
  split
  · next hescapable =>
      have hline : c ≠ '\n' := by
        rintro rfl
        cases hescapable
      have hstep : step inner (f.inWord place p .doubleEscape) c =
          f.inWord place (p.addChar c) .double := by
        simp only [Frame.inWord, Frame.goTo, step, stepWord, if_neg hline, if_pos hescapable]
      exact hstep
  · next hliteral =>
      obtain ⟨hdollar, hbackquote, hquote, hbackslash⟩ :
          c ≠ '$' ∧ c ≠ '\x60' ∧ c ≠ '"' ∧ c ≠ '\\' := by
        simpa [isDoubleEscapable, and_assoc] using hliteral
      simp only [List.foldl_cons, List.foldl_nil, Frame.inWord, Frame.goTo, step, stepWord,
        stepDouble, if_neg hquote, if_neg hbackslash, if_neg hdollar, if_neg hbackquote]

theorem foldl_step_escapedDouble (p : Pieces) (text : List Char) :
    (text.flatMap Segment.escapeDouble).foldl (step inner) (f.inWord place p .double) =
      f.inWord place (p.addText text false) .double := by
  induction text generalizing p with
  | nil => rw [Pieces.addText_nil]; rfl
  | cons c rest ih =>
      rw [List.flatMap_cons, List.foldl_append, foldl_step_escapeDouble, ih,
        Pieces.addText_cons]

end Styles

namespace AtWord

variable (inner : List Char → Reading) {f : Frame} {place : Place} {p : Pieces} {s : State}

/-- A character after a backslash is one more character of the word. -/
theorem foldl_escaped {c : Char} (hc : c ≠ '\n') (h : AtWord f place p s) :
    AtWord f place (p.addChar c) (['\\', c].foldl (step inner) s) := by
  have hopen : stepWordChar f place p '\\' = f.inWord place p .escape := rfl
  have hstep : step inner (f.inWord place p .escape) c = f.inWord place (p.addChar c) .bare := by
    simp only [Frame.inWord, Frame.goTo, step, stepWord, if_neg hc]
  rw [List.foldl_cons, h.step_special rfl, hopen, List.foldl_cons, List.foldl_nil, hstep]
  exact inside ..

theorem foldl_escapedText {text : List Char} (htext : '\n' ∉ text) (h : AtWord f place p s) :
    AtWord f place (p.addText text false)
      ((text.flatMap (fun c => ['\\', c])).foldl (step inner) s) := by
  induction text generalizing p s with
  | nil => rwa [Pieces.addText_nil]
  | cons c rest ih =>
      rw [List.mem_cons, not_or] at htext
      rw [List.flatMap_cons, List.foldl_append, Pieces.addText_cons]
      exact ih htext.2 (h.foldl_escaped inner (Ne.symm htext.1))

/-- A segment adds its text to the word, and its quotes if it has some. -/
theorem foldl_segment (segment : Segment) (h : AtWord f place p s) :
    AtWord f place (p.addText segment.text segment.isQuoted)
      (segment.write.foldl (step inner) s) := by
  cases segment with
  | single text closed =>
      have htext : ∀ c ∈ text, c ≠ '\'' := fun c hc heq => closed (heq ▸ hc)
      have hopen : stepWordChar f place p '\'' = f.inWord place p.openQuote .single := rfl
      have hclose : step inner (f.inWord place (p.openQuote.addText text false) .single) '\'' =
          f.inWord place (p.openQuote.addText text false) .bare := rfl
      rw [Segment.write, List.foldl_cons, h.step_special rfl, hopen, List.foldl_append,
        foldl_step_single inner f place _ htext, List.foldl_cons, List.foldl_nil, hclose,
        Pieces.addText_openQuote]
      exact inside ..
  | double text =>
      have hopen : stepWordChar f place p '"' = f.inWord place p.openQuote .double := rfl
      have hclose : step inner (f.inWord place (p.openQuote.addText text false) .double) '"' =
          f.inWord place (p.openQuote.addText text false) .bare := rfl
      rw [Segment.write, List.foldl_cons, h.step_special rfl, hopen, List.foldl_append,
        foldl_step_escapedDouble, List.foldl_cons, List.foldl_nil, hclose,
        Pieces.addText_openQuote]
      exact inside ..
  | escaped text written line => exact h.foldl_escapedText inner line

/-- Segments one after another add all their texts. -/
theorem foldl_segments (segments : List Segment) (h : AtWord f place p s) :
    AtWord f place (p.addText (segments.flatMap Segment.text) (segments.any Segment.isQuoted))
      ((segments.flatMap Segment.write).foldl (step inner) s) := by
  induction segments generalizing p s with
  | nil => rwa [List.flatMap_nil, List.any_nil, Pieces.addText_nil]
  | cons segment rest ih =>
      have hrest := ih (h.foldl_segment inner segment)
      simp only [List.flatMap_cons, List.foldl_append, List.any_cons]
      simpa only [Pieces.addText, List.append_assoc, Bool.or_assoc] using hrest

end AtWord

end Reader

open Reader

/-- Text in any mixture of styles is one argument, and the argument is that text. -/
theorem readStatements_segments {segments : List Segment} (h : segments ≠ []) :
    readStatements ("x " ++ Segment.writeAll segments) =
      ⟨.ok [.command (.literal "x") [.literal (Segment.textOfAll segments)] []], []⟩ := by
  let f : Frame := ⟨[], ⟨[], some (.literal "x"), []⟩, []⟩
  have htoList : ("x " ++ Segment.writeAll segments).toList =
      ['x', ' '] ++ segments.flatMap Segment.write := by
    simp [Segment.writeAll]
  have hprogram : ['x', ' '].foldl (step read) State.start = f.before .plain := rfl
  have hword := (atWord_before f .plain).foldl_segments read segments
  have hquoted : segments.flatMap Segment.text = [] → segments.any Segment.isQuoted = true := by
    intro hnil
    obtain ⟨segment, hmem⟩ := List.exists_mem_of_ne_nil segments h
    exact List.any_eq_true.2 ⟨segment, hmem,
      Segment.isQuoted_of_text_eq_nil (List.flatMap_eq_nil_iff.1 hnil segment hmem)⟩
  have hpieces : Pieces.start.addText (segments.flatMap Segment.text)
      (segments.any Segment.isQuoted) =
      ⟨[], segments.flatMap Segment.text, segments.any Segment.isQuoted⟩ := by
    simp [Pieces.start, Pieces.addText]
  rw [hpieces] at hword
  rw [readStatements, read_eq, readWith, htoList, List.foldl_append, hprogram, hword.finish_eq,
    finishWord, endWord, Pieces.word?_text hquoted]
  rfl

/-- All three styles, with characters that mean something outside quotes, without quotes, or
between double quotes only. -/
def mixedSegments : List Segment :=
  [.escaped "~#=".toList (by decide) (by decide), .double "a \"$(b)\\\n".toList,
    .single "\\ \"; | \n$X".toList (by decide), .double [],
    .escaped "' >".toList (by decide) (by decide)]

theorem readStatements_segments_sample :
    mixedSegments ≠ [] ∧
      readStatements ("x " ++ Segment.writeAll mixedSegments) =
        ⟨.ok [.command (.literal "x") [.literal (Segment.textOfAll mixedSegments)] []], []⟩ := by
  have hne : mixedSegments ≠ [] := List.cons_ne_nil _ _
  exact ⟨hne, readStatements_segments hne⟩

end ScriptRunner

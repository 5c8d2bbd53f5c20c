import ScriptRunner.Proofs.Command.Depth
import ScriptRunner.Proofs.Command.WrittenWord

/-!
# ScriptRunner.Proofs.Command.Backquotes

Every text can be the text of a substitution between backquotes.

A backslash before each backquote and each backslash of the text is all that it takes. The
reader drops exactly these backslashes while it collects the text (`foldl_writeBackquoted`), be it
between double quotes or not, and what it has collected is read as if nothing stood around it
(`endSubstitution_eq`). The text that is collected is not looked into before that, so it may be
refused, and it may have backquotes of its own.

Main statement: `readStatements_backquoted`.
-/

namespace ScriptRunner

namespace Reader

/-! ## What is collected -/

/-- A character of a text as it is written between backquotes. -/
def writeBackquoted (c : Char) : List Char :=
  if c = '\x60' ∨ c = '\\' then ['\\', c] else [c]

section Collecting

variable (inner : List Char → Reading) (f : Frame) (place : Place) (p : Pieces) (double : Bool)

/-- What is written for a character is collected as that character. -/
theorem foldl_writeBackquoted_char (collected : List Char) (c : Char) :
    (writeBackquoted c).foldl (step inner) (f.inWord place p (.backquote double collected)) =
      f.inWord place p (.backquote double (collected ++ [c])) := by
  unfold writeBackquoted
  split_ifs with hspecial
  · have hescape : step inner (f.inWord place p (.backquote double collected)) '\\' =
        f.inWord place p (.backquoteEscape double collected) := rfl
    have hadded : c = '\x60' ∨ c = '\\' ∨ c = '$' := by tauto
    rw [List.foldl_cons, hescape, List.foldl_cons, List.foldl_nil]
    refine (step_word inner f c place p (.backquoteEscape double collected)).trans ?_
    rw [stepWord, if_pos hadded]
  · obtain ⟨hbackquote, hbackslash⟩ := not_or.1 hspecial
    rw [List.foldl_cons, List.foldl_nil]
    refine (step_word inner f c place p (.backquote double collected)).trans ?_
    rw [stepWord, if_neg hbackquote, if_neg hbackslash]

theorem foldl_writeBackquoted (collected text : List Char) :
    (text.flatMap writeBackquoted).foldl (step inner)
        (f.inWord place p (.backquote double collected)) =
      f.inWord place p (.backquote double (collected ++ text)) := by
  induction text generalizing collected with
  | nil => rw [List.flatMap_nil, List.foldl_nil, List.append_nil]
  | cons c rest ih =>
      rw [List.flatMap_cons, List.foldl_append, foldl_writeBackquoted_char, ih, List.append_assoc,
        List.singleton_append]

/-- The backquote behind it is the first that is not escaped. -/
theorem foldl_backquoted (text : List Char) :
    (text.flatMap writeBackquoted ++ ['\x60']).foldl (step inner)
        (f.inWord place p (.backquote double [])) =
      endSubstitution inner double f place p text := by
  have hclose : step inner (f.inWord place p (.backquote double text)) '\x60' =
      endSubstitution inner double f place p text := rfl
  rw [List.foldl_append, foldl_writeBackquoted, List.nil_append, List.foldl_cons, hclose,
    List.foldl_nil]

end Collecting

end Reader

/-! ## What becomes of it -/

/-- The substitutions that are ignored where the text is that of a substitution: those of the text,
and the text itself if it is refused. -/
def ignoredAround (text : String) : List IgnoredSubstitution :=
  (readStatements text).ignored ++
    match (readStatements text).result with
    | .error (.refused reason) => [⟨text, reason⟩]
    | _ => []

open Reader

/-- Only a text that is never read to its end stops the reader of the text around it. -/
theorem Reader.endSubstitution_eq {text : String}
    (hread : (readStatements text).result ≠ .error .stalled) (double : Bool) (f : Frame)
    (place : Place) (p : Pieces) :
    endSubstitution read double f place p text.toList =
      Frame.inWord ⟨f.done, f.draft, f.ignored ++ ignoredAround text⟩ place
        (p.addExpansion (.substitution (readStatements text).statements)) (Mode.after double) := by
  have hreading : read text.toList = readStatements text := rfl
  rw [endSubstitution, hreading, ignoredAround, Reading.statements]
  cases hresult : (readStatements text).result with
  | ok statements => rw [List.append_nil]
  | error halt =>
      cases halt with
      | refused reason =>
          simp only [String.ofList_toList, List.append_assoc]
      | stalled => exact absurd hresult hread

/-- The text as it is written between backquotes. -/
def betweenBackquotes (text : String) : String :=
  "`" ++ String.ofList (text.toList.flatMap writeBackquoted) ++ "`"

/-- A command with a substitution of the text as its argument, which stands between double quotes
if `quoted`. -/
def backquoted (quoted : Bool) (text : String) : String :=
  if quoted then "x \"" ++ betweenBackquotes text ++ "\"" else "x " ++ betweenBackquotes text

/-- What is read for it. -/
def backquotedStatements (quoted : Bool) (statements : List Statement) : List Statement :=
  let argument : Word := .substitution statements
  [.command (.literal "x") [if quoted then .concat [.literal "", argument] else argument] []]

theorem readStatements_backquoted_once {text : String}
    (hread : (readStatements text).result ≠ .error .stalled) (quoted : Bool) :
    readStatements (backquoted quoted text) =
      ⟨.ok (backquotedStatements quoted (readStatements text).statements), ignoredAround text⟩ := by
  let f : Frame := ⟨[], ⟨[], some (.literal "x"), []⟩, []⟩
  cases quoted with
  | false =>
      have hsplit : (backquoted false text).toList =
          ['x', ' ', '\x60'] ++ (text.toList.flatMap writeBackquoted ++ ['\x60']) := by
        simp [backquoted, betweenBackquotes]
      have hbefore : ['x', ' ', '\x60'].foldl (step read) State.start =
          f.inWord .plain .start (.backquote false []) := rfl
      rw [readStatements, hsplit, read_eq, readWith, List.foldl_append, hbefore, foldl_backquoted,
        endSubstitution_eq hread]
      rfl
  | true =>
      have hsplit : (backquoted true text).toList =
          ['x', ' ', '"', '\x60'] ++
            ((text.toList.flatMap writeBackquoted ++ ['\x60']) ++ ['"']) := by
        simp [backquoted, betweenBackquotes]
      have hbefore : ['x', ' ', '"', '\x60'].foldl (step read) State.start =
          f.inWord .plain Pieces.start.openQuote (.backquote true []) := rfl
      rw [readStatements, hsplit, read_eq, readWith, List.foldl_append, hbefore, List.foldl_append,
        foldl_backquoted, endSubstitution_eq hread]
      rfl

/-! ## Substitutions in substitutions -/

/-- The text inside of as many substitutions as there are levels, the outermost first. -/
def backquotedWithin (levels : List Bool) (text : String) : String :=
  levels.foldr backquoted text

/-- What is read for it. -/
def statementsWithin (levels : List Bool) (statements : List Statement) : List Statement :=
  levels.foldr backquotedStatements statements

/-- Whatever is inside, the text around it is accepted, and only the innermost text can be
ignored. -/
theorem readStatements_within {text : String}
    (hread : (readStatements text).result ≠ .error .stalled) (quoted : Bool)
    (levels : List Bool) :
    readStatements (backquotedWithin (quoted :: levels) text) =
      ⟨.ok (statementsWithin (quoted :: levels) (readStatements text).statements),
        ignoredAround text⟩ := by
  induction levels generalizing quoted with
  | nil => exact readStatements_backquoted_once hread quoted
  | cons next levels ih =>
      have hinner := ih next
      have haccepted : (readStatements (backquotedWithin (next :: levels) text)).result ≠
          .error .stalled := by
        rw [hinner]
        nofun
      -- since the text in between is accepted, it adds nothing to what is ignored
      have hignored : ignoredAround (backquotedWithin (next :: levels) text) =
          ignoredAround text := by
        rw [ignoredAround, hinner]
        exact List.append_nil _
      refine (readStatements_backquoted_once haccepted quoted).trans ?_
      rw [hignored, hinner]
      rfl

/-- A text that can be read at all is the text of the substitution that is written around it with
backquotes, outside of quotes and between double quotes, and so on to any depth. A refused text
makes an empty substitution. -/
theorem readStatements_backquoted {text : String}
    (hread : (readStatements text).result ≠ .error .stalled) :
    readStatements ("x " ++ betweenBackquotes text) =
        ⟨.ok [.command (.literal "x") [.substitution (readStatements text).statements] []],
          ignoredAround text⟩ ∧
      readStatements ("x \"" ++ betweenBackquotes text ++ "\"") =
        ⟨.ok [.command (.literal "x")
          [.concat [.literal "", .substitution (readStatements text).statements]] []],
          ignoredAround text⟩ ∧
      ∀ quoted levels, readStatements (backquotedWithin (quoted :: levels) text) =
        ⟨.ok (statementsWithin (quoted :: levels) (readStatements text).statements),
          ignoredAround text⟩ :=
  ⟨readStatements_backquoted_once hread false, readStatements_backquoted_once hread true,
    readStatements_within hread⟩

/-- A text with a substitution in a substitution. It is refused for its last character. -/
def refusedText : String := "echo \\$ `f \\`g\\`` |"

theorem readStatements_backquoted_sample :
    (readStatements refusedText).result = .error (.refused (.unsupportedOperator "|")) ∧
      betweenBackquotes refusedText = "`echo \\\\$ \\`f \\\\\\`g\\\\\\`\\` |`" ∧
      readStatements ("x " ++ betweenBackquotes refusedText) =
        ⟨.ok [.command (.literal "x") [.substitution []] []],
          [⟨refusedText, .unsupportedOperator "|"⟩]⟩ ∧
      readStatements (backquotedWithin [true, false] refusedText) =
        ⟨.ok [.command (.literal "x") [.concat [.literal "", .substitution
          [.command (.literal "x") [.substitution []] []]]] []],
          [⟨refusedText, .unsupportedOperator "|"⟩]⟩ := by
  have hrefused : (readStatements refusedText).result =
      .error (.refused (.unsupportedOperator "|")) := rfl
  have hread : (readStatements refusedText).result ≠ .error .stalled := by
    rw [hrefused]
    nofun
  have hignored : ignoredAround refusedText = [⟨refusedText, .unsupportedOperator "|"⟩] := rfl
  have hstatements : (readStatements refusedText).statements = [] := rfl
  obtain ⟨hbare, -, hnested⟩ := readStatements_backquoted hread
  rw [hignored, hstatements] at hbare
  refine ⟨hrefused, by decide, hbare, ?_⟩
  rw [hnested true [false], hignored, hstatements]
  rfl

end ScriptRunner

import ScriptRunner.Text.Blank

/-!
# ScriptRunner.Command.Name

Names of variables: an ASCII letter or underscore, then letters, digits and
underscores. No other script counts as a letter here.
-/

namespace ScriptRunner

/-- The first character of a name. -/
def isNameStart (c : Char) : Bool :=
  isAsciiLetter c || c == '_'

/-- The later characters of a name. -/
def isNameChar (c : Char) : Bool :=
  isAsciiLetter c || isAsciiDigit c || c == '_'

/-- Whether a list of characters spells a name. -/
def isNameText : List Char → Bool
  | [] => false
  | c :: rest => isNameStart c && rest.all isNameChar

/-- Whether `text` is the name of a variable. -/
def isValidName (text : String) : Bool :=
  isNameText text.toList

theorem isNameChar_of_isNameStart {c : Char} (h : isNameStart c = true) :
    isNameChar c = true := by
  simp only [isNameStart, isNameChar, Bool.or_eq_true] at h ⊢
  rcases h with h | h
  · exact Or.inl (Or.inl h)
  · exact Or.inr h

/-- The one-character parameters that `$` may also name. -/
def isSpecialParameter (c : Char) : Bool :=
  isAsciiDigit c || c == '?' || c == '$' || c == '#' || c == '@' || c == '*' || c == '!' || c == '-'

end ScriptRunner

/-!
# ScriptRunner.Command.SyntaxError

Why command text is refused. Each cause is a constructor; its wording is in
`SyntaxError.message` and nowhere else.
-/

namespace ScriptRunner

/-- The causes for which command text is refused. -/
inductive SyntaxError
  /-- A run of operator characters that starts with `|` or `&`. -/
  | unsupportedOperator (operator : String)
  /-- A run of operator characters that starts with `<` or `>`. -/
  | unsupportedRedirection (operator : String)
  /-- A parenthesis where a word could start. -/
  | unexpected (c : Char)
  /-- The text ends inside `NAME=( …`. -/
  | unmatchedArray (name : String)
  /-- An operator character between the elements of an array. -/
  | unexpectedInArray (c : Char) (name : String)
  /-- Something other than a word end right after the `)` of an array. -/
  | unexpectedAfterArray (c : Char) (name : String)
  | unterminatedSingleQuote
  | unterminatedDoubleQuote
  /-- The text ends inside `$` with braces. -/
  | unterminatedBraces
  /-- The text ends inside `$( …`. -/
  | unterminatedSubstitution
  | unterminatedBackquote
  /-- A refusal by an extension, in its own words. -/
  | other (text : String)
  deriving DecidableEq, Repr

namespace SyntaxError

/-- What is said about a refused text. -/
def message : SyntaxError → String
  | unsupportedOperator operator =>
    "unsupported operator '" ++ operator ++ "' (pipelines and lists are not supported)"
  | unsupportedRedirection operator => "unsupported redirection '" ++ operator ++ "'"
  | unexpected c => "unexpected '" ++ c.toString ++ "'"
  | unmatchedArray name => "unmatched '(' in array assignment to " ++ name
  | unexpectedInArray c name =>
    "unexpected '" ++ c.toString ++ "' in array assignment to " ++ name
  | unexpectedAfterArray c name =>
    "unexpected '" ++ c.toString ++ "' after array assignment to " ++ name
  | unterminatedSingleQuote => "unterminated single quote"
  | unterminatedDoubleQuote => "unterminated double quote"
  | unterminatedBraces => "unterminated '$\x7b'"
  | unterminatedSubstitution => "unterminated '$('"
  | unterminatedBackquote => "unterminated backquote"
  | other text => text

/-- The same as a failure of an entry is worded. -/
def report (e : SyntaxError) : String :=
  "parse error: " ++ e.message

end SyntaxError

end ScriptRunner

import ScriptRunner.Text.Blank

/-!
# ScriptRunner.Text.Lines

Lines of a text, and the collapse of captured output to one value.

A line ends at a line feed; a carriage return right before that line feed belongs
to the line break. A final line feed closes the last line and opens no new one, so
`lines` of the empty text is empty. A carriage return without a line feed after it
is an ordinary character of its line.
-/

namespace ScriptRunner.Text

/-- The lines of `text` between its line feeds, given the characters of the current
line so far. -/
def linesFrom (current : List Char) : List Char → List (List Char)
  | [] => if current.isEmpty then [] else [current]
  | c :: rest =>
    if c = '\n' then stripLast '\r' current :: linesFrom [] rest
    else linesFrom (current ++ [c]) rest

/-- The lines of a text. -/
def lines (text : List Char) : List (List Char) :=
  linesFrom [] text

@[simp] theorem lines_nil : lines [] = [] := rfl

/-- Captured output as one value: each line without its trailing carriage returns,
one space for each line break, no white space at either end. -/
def collapse (text : List Char) : List Char :=
  trim (join [' '] ((lines text).map (dropEndWhile (· == '\r'))))

@[simp] theorem collapse_nil : collapse [] = [] := rfl

end ScriptRunner.Text

namespace ScriptRunner

/-- `Text.collapse` on strings: the value that a command substitution contributes
when its program printed `output`. -/
def collapseOutput (output : String) : String :=
  String.ofList (Text.collapse output.toList)

end ScriptRunner

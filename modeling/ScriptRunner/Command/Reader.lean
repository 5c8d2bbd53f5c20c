import ScriptRunner.Command.Name
import ScriptRunner.Command.Statement
import ScriptRunner.Command.SyntaxError

/-!
# ScriptRunner.Command.Reader

Reading command text into statements.

The reader is a machine that takes one character at a time: `Reader.step` is its
transition, `Reader.finish` what it makes of the end of the text, and reading a text
is a fold. Nothing is looked up ahead. Where a decision needs the next character (is
`FOO` a word or the start of `FOO=…`, does a `~` stand alone, does a `$` start an
expansion), the machine is in a state that says so, and the next character is then
read once more in the state the decision leads to.

Two things end the reading early. A text can be refused (`Halt.refused`). And a white
space character that separates no words (anything but space, tab, carriage return and
line feed) stops all progress where a word could start: it is neither skipped nor part
of a word, so the reading never ends (`Halt.stalled`). Between the elements of an
array every white space separates.

The text of a substitution is collected until its end and then read by itself, one
level deeper. A substitution that is refused contributes nothing, with a warning.
-/

namespace ScriptRunner

/-- Why reading stops before the end of the text. -/
inductive Halt
  /-- The text is not a command line. -/
  | refused (reason : SyntaxError)
  /-- No progress is possible. -/
  | stalled
  deriving DecidableEq, Repr

/-- A substitution whose text was refused: that text, and why. -/
structure IgnoredSubstitution where
  text : String
  reason : SyntaxError
  deriving DecidableEq, Repr

/-- What reading a text gives: its statements, and the substitutions that were
ignored on the way, in the order in which their ends were read. -/
structure Reading where
  result : Except Halt (List Statement)
  ignored : List IgnoredSubstitution

namespace Reader

/-! ## What is being read -/

/-- A word so far: the finished pieces, the literal text after them, and whether a
quote was opened. -/
structure Pieces where
  parts : List Word := []
  text : List Char := []
  quoted : Bool := false

namespace Pieces

/-- The word that starts here. -/
def start : Pieces := ⟨[], [], false⟩

/-- One more literal character. -/
def addChar (p : Pieces) (c : Char) : Pieces :=
  ⟨p.parts, p.text ++ [c], p.quoted⟩

/-- The finished pieces, the literal text among them. -/
def flushed (p : Pieces) : List Word :=
  if p.text.isEmpty then p.parts else p.parts ++ [.literal (String.ofList p.text)]

/-- One more expansion, after the literal text so far. -/
def addExpansion (p : Pieces) (w : Word) : Pieces :=
  ⟨p.flushed ++ [w], [], p.quoted⟩

/-- A quote was opened. -/
def openQuote (p : Pieces) : Pieces :=
  ⟨p.parts, p.text, true⟩

/-- Whether a word is literal text. -/
def isLiteral : Word → Bool
  | .literal _ => true
  | _ => false

/-- The pieces with an empty literal in front where a quoted word has no literal of
its own: it makes the word stay when all its expansions are empty. -/
def anchored (p : Pieces) : List Word :=
  if p.quoted && !p.flushed.any isLiteral then .literal "" :: p.flushed else p.flushed

/-- The word, or `none` where nothing was written that could be one. -/
def word? (p : Pieces) : Option Word :=
  match p.anchored with
  | [] => none
  | [w] => some w
  | ws => some (.concat ws)

end Pieces

/-- What a word is read for. -/
inductive Place
  /-- To be the program or an argument. -/
  | plain
  /-- To be the value of this name. -/
  | value (name : String)
  /-- To be the next element of the array bound to this name. -/
  | element (name : String) (elements : List Word)

/-- Where the reader stands inside a word. For an expansion the flag says whether it
stands between double quotes. -/
inductive Mode
  /-- After a `~` at the start of the word. -/
  | tilde
  | bare
  /-- After a backslash outside quotes. -/
  | escape
  | single
  | double
  /-- After a backslash between double quotes. -/
  | doubleEscape
  /-- After a `$`. -/
  | dollar (double : Bool)
  /-- In the letters of `$NAME`. -/
  | name (double : Bool) (letters : List Char)
  /-- Between braces, `depth` of them open. -/
  | braces (double : Bool) (depth : Nat) (text : List Char)
  /-- In `$(…)`, `depth` parentheses open; the flags follow its quotes and escapes. -/
  | parens (double : Bool) (depth : Nat) (inSingle inDouble escaped : Bool) (text : List Char)
  | backquote (double : Bool) (text : List Char)
  /-- After a backslash between backquotes. -/
  | backquoteEscape (double : Bool) (text : List Char)

/-- The statement so far. -/
structure Draft where
  assignments : List Assignment := []
  name : Option Word := none
  args : List Word := []

namespace Draft

/-- The statement that starts here. -/
def start : Draft := ⟨[], none, []⟩

/-- One more word: the program, or the next argument. -/
def addWord (d : Draft) (w : Word) : Draft :=
  match d.name with
  | none => ⟨d.assignments, some w, d.args⟩
  | some n => ⟨d.assignments, some n, d.args ++ [w]⟩

/-- One more assignment. -/
def addAssignment (d : Draft) (name : String) (value : Word) : Draft :=
  ⟨d.assignments ++ [.mk name value], d.name, d.args⟩

/-- The statement, or nothing where nothing was written. -/
def statements (d : Draft) : List Statement :=
  match d.name with
  | some n => [.command n d.args d.assignments]
  | none => if d.assignments.isEmpty then [] else [.assign d.assignments]

end Draft

/-- Where the reader stands in a statement. -/
inductive Position
  /-- Where a word could start. -/
  | gap
  | comment
  /-- In a run of operator characters, which is refused as a whole. -/
  | operator (redirection : Bool) (run : List Char)
  /-- In characters that could be the name of an assignment. -/
  | letters (text : List Char)
  /-- Right after `NAME=`. -/
  | valueStart (name : String)
  /-- Between the elements of an array. -/
  | arrayGap (name : String) (elements : List Word)
  | arrayComment (name : String) (elements : List Word)
  /-- Right after the `)` of an array. -/
  | arrayEnd (name : String) (elements : List Word)
  /-- Inside a word. -/
  | word (place : Place) (pieces : Pieces) (mode : Mode)

/-- The state of the reader: the finished statements, the statement so far and the
position in it, or the reason why it has stopped. The warnings come along. -/
inductive State
  | running (done : List Statement) (draft : Draft) (position : Position)
      (ignored : List IgnoredSubstitution)
  | halted (halt : Halt) (ignored : List IgnoredSubstitution)

namespace State

/-- Before the first character. -/
def start : State := .running [] Draft.start .gap []

end State

/-- Everything that stays the same while the reader moves inside one statement: what is
finished, the draft, and the warnings. -/
structure Frame where
  done : List Statement
  draft : Draft
  ignored : List IgnoredSubstitution

namespace Frame

/-- The reader at `position`. -/
def goTo (f : Frame) (position : Position) : State :=
  .running f.done f.draft position f.ignored

/-- The reader inside a word. -/
def inWord (f : Frame) (place : Place) (pieces : Pieces) (mode : Mode) : State :=
  f.goTo (.word place pieces mode)

/-- The reader stopped by a refusal. -/
def refuse (f : Frame) (reason : SyntaxError) : State :=
  .halted (.refused reason) f.ignored

/-- The statement so far is complete. -/
def endStatement (f : Frame) : Frame :=
  ⟨f.done ++ f.draft.statements, Draft.start, f.ignored⟩

end Frame

/-! ## Character classes -/

/-- Characters that end an unquoted word. -/
def isWordEnd (c : Char) : Bool :=
  isBlank c || c == ';' || c == '|' || c == '&' || c == '<' || c == '>' || c == '(' || c == ')'

/-- Characters of an operator run. -/
def isOperatorChar (c : Char) : Bool :=
  c == '|' || c == '&' || c == '<' || c == '>'

/-- Characters that a backslash escapes between double quotes; a line feed is the
one that then vanishes. -/
def isDoubleEscapable (c : Char) : Bool :=
  c == '$' || c == '\x60' || c == '"' || c == '\\'

/-! ## One character -/

/-- A character of an unquoted word that does not end it. -/
def stepWordChar (f : Frame) (place : Place) (p : Pieces) (c : Char) : State :=
  if c = '\\' then f.inWord place p .escape
  else if c = '\'' then f.inWord place p.openQuote .single
  else if c = '"' then f.inWord place p.openQuote .double
  else if c = '$' then f.inWord place p (.dollar false)
  else if c = '\x60' then f.inWord place p (.backquote false [])
  else f.inWord place (p.addChar c) .bare

/-- The first character of a word, which does not end one. -/
def startWord (f : Frame) (place : Place) (c : Char) : State :=
  if c = '~' then f.inWord place Pieces.start .tilde else stepWordChar f place Pieces.start c

/-- A character where a word of a statement could start. -/
def stepGap (f : Frame) (c : Char) : State :=
  if isCommandBlank c then f.goTo .gap
  else if c = ';' ∨ c = '\n' then f.endStatement.goTo .gap
  else if c = '#' then f.goTo .comment
  else if c = '|' ∨ c = '&' then f.goTo (.operator false [c])
  else if c = '<' ∨ c = '>' then f.goTo (.operator true [c])
  else if c = '(' ∨ c = ')' then f.refuse (.unexpected c)
  else if isBlank c then .halted .stalled f.ignored
  else if f.draft.name.isNone && isNameStart c then f.goTo (.letters [c])
  else startWord f .plain c

/-- A character where an element of an array could start. -/
def stepArrayGap (f : Frame) (name : String) (elements : List Word) (c : Char) : State :=
  if isBlank c then f.goTo (.arrayGap name elements)
  else if c = ')' then f.goTo (.arrayEnd name elements)
  else if c = '#' then f.goTo (.arrayComment name elements)
  else if isWordEnd c then f.refuse (.unexpectedInArray c name)
  else startWord f (.element name elements) c

/-- The frame with a finished assignment. -/
def assigned (f : Frame) (name : String) (value : Word) : Frame :=
  ⟨f.done, f.draft.addAssignment name value, f.ignored⟩

/-- The end of a word: it goes where it was read for, and the reader is between words.
An assignment without any text binds the empty text. -/
def endWord (f : Frame) (place : Place) (p : Pieces) : Frame × Position :=
  match place with
  | .plain =>
    match p.word? with
    | some w => (⟨f.done, f.draft.addWord w, f.ignored⟩, .gap)
    | none => (f, .gap)
  | .value name => (assigned f name (p.word?.getD (.literal "")), .gap)
  | .element name elements => (f, .arrayGap name (elements ++ p.word?.toList))

/-- A character after the last of a word. -/
def stepAfterWord (f : Frame) (place : Place) (p : Pieces) (c : Char) : State :=
  match endWord f place p with
  | (g, .arrayGap name elements) => stepArrayGap g name elements c
  | (g, _) => stepGap g c

/-- A character outside quotes, inside a word. -/
def stepBare (f : Frame) (place : Place) (p : Pieces) (c : Char) : State :=
  if isWordEnd c then stepAfterWord f place p c else stepWordChar f place p c

/-- A character between double quotes. -/
def stepDouble (f : Frame) (place : Place) (p : Pieces) (c : Char) : State :=
  if c = '"' then f.inWord place p .bare
  else if c = '\\' then f.inWord place p .doubleEscape
  else if c = '$' then f.inWord place p (.dollar true)
  else if c = '\x60' then f.inWord place p (.backquote true [])
  else f.inWord place (p.addChar c) .double

/-- The mode to go on with after an expansion. -/
def Mode.after (double : Bool) : Mode :=
  if double then .double else .bare

/-- A character after an expansion that has no end mark of its own. -/
def stepAfterExpansion (double : Bool) (f : Frame) (place : Place) (p : Pieces) (c : Char) :
    State :=
  if double then stepDouble f place p c else stepBare f place p c

/-- A substitution with all its text read, as `inner` reads it. -/
def endSubstitution (inner : List Char → Reading) (double : Bool) (f : Frame) (place : Place)
    (p : Pieces) (text : List Char) : State :=
  let reading := inner text
  let ignored := f.ignored ++ reading.ignored
  match reading.result with
  | .ok statements =>
    Frame.inWord ⟨f.done, f.draft, ignored⟩ place (p.addExpansion (.substitution statements))
      (Mode.after double)
  | .error (.refused reason) =>
    Frame.inWord ⟨f.done, f.draft, ignored ++ [⟨String.ofList text, reason⟩]⟩ place
      (p.addExpansion (.substitution [])) (Mode.after double)
  | .error .stalled => .halted .stalled ignored

/-- A character after a `$`. -/
def stepDollar (double : Bool) (f : Frame) (place : Place) (p : Pieces) (c : Char) : State :=
  if c = '\x7b' then f.inWord place p (.braces double 1 [])
  else if c = '(' then f.inWord place p (.parens double 1 false false false [])
  else if isNameStart c then f.inWord place p (.name double [c])
  else if isSpecialParameter c then
    f.inWord place (p.addExpansion (.variable c.toString)) (Mode.after double)
  else stepAfterExpansion double f place (p.addChar '$') c

/-- A character between braces. -/
def stepBraces (double : Bool) (depth : Nat) (text : List Char) (f : Frame) (place : Place)
    (p : Pieces) (c : Char) : State :=
  if c = '\x7b' then f.inWord place p (.braces double (depth + 1) (text ++ [c]))
  else if c = '\x7d' then
    if depth ≤ 1 then
      f.inWord place (p.addExpansion (.parameter (String.ofList text))) (Mode.after double)
    else f.inWord place p (.braces double (depth - 1) (text ++ [c]))
  else f.inWord place p (.braces double depth (text ++ [c]))

/-- A character in `$(…)`. Quotes and escapes are followed only as far as to know
which parentheses count. -/
def stepParens (inner : List Char → Reading) (double : Bool) (depth : Nat)
    (inSingle inDouble escaped : Bool) (text : List Char) (f : Frame) (place : Place)
    (p : Pieces) (c : Char) : State :=
  let go (depth : Nat) (inSingle inDouble escaped : Bool) : State :=
    f.inWord place p (.parens double depth inSingle inDouble escaped (text ++ [c]))
  if escaped then go depth inSingle inDouble false
  else if c = '\\' ∧ inSingle = false then go depth inSingle inDouble true
  else if c = '\'' ∧ inDouble = false then go depth (!inSingle) inDouble false
  else if c = '"' ∧ inSingle = false then go depth inSingle (!inDouble) false
  else if inSingle = false ∧ inDouble = false ∧ c = '(' then go (depth + 1) inSingle inDouble false
  else if inSingle = false ∧ inDouble = false ∧ c = ')' then
    if depth ≤ 1 then endSubstitution inner double f place p text
    else go (depth - 1) inSingle inDouble false
  else go depth inSingle inDouble false

/-- A character inside a word. -/
def stepWord (inner : List Char → Reading) (f : Frame) (place : Place) (p : Pieces)
    (mode : Mode) (c : Char) : State :=
  match mode with
  | .tilde =>
    if c = '/' ∨ isWordEnd c then stepBare f place (p.addExpansion (.variable "HOME")) c
    else stepBare f place (p.addChar '~') c
  | .bare => stepBare f place p c
  | .escape => f.inWord place (if c = '\n' then p else p.addChar c) .bare
  | .single =>
    if c = '\'' then f.inWord place p .bare else f.inWord place (p.addChar c) .single
  | .double => stepDouble f place p c
  | .doubleEscape =>
    if c = '\n' then f.inWord place p .double
    else if isDoubleEscapable c then f.inWord place (p.addChar c) .double
    else stepDouble f place (p.addChar '\\') c
  | .dollar double => stepDollar double f place p c
  | .name double letters =>
    if isNameChar c then f.inWord place p (.name double (letters ++ [c]))
    else
      stepAfterExpansion double f place
        (p.addExpansion (.variable (String.ofList letters))) c
  | .braces double depth text => stepBraces double depth text f place p c
  | .parens double depth inSingle inDouble escaped text =>
    stepParens inner double depth inSingle inDouble escaped text f place p c
  | .backquote double text =>
    if c = '\x60' then endSubstitution inner double f place p text
    else if c = '\\' then f.inWord place p (.backquoteEscape double text)
    else f.inWord place p (.backquote double (text ++ [c]))
  | .backquoteEscape double text =>
    let added := if c = '\x60' ∨ c = '\\' ∨ c = '$' then [c] else ['\\', c]
    f.inWord place p (.backquote double (text ++ added))

/-- The transition of the reader. `inner` reads the text of a substitution. -/
def step (inner : List Char → Reading) (s : State) (c : Char) : State :=
  match s with
  | .halted halt ignored => .halted halt ignored
  | .running done draft position ignored =>
    let f : Frame := ⟨done, draft, ignored⟩
    match position with
    | .gap => stepGap f c
    | .comment => if c = '\n' then stepGap f c else f.goTo .comment
    | .operator redirection run =>
      if isOperatorChar c then f.goTo (.operator redirection (run ++ [c]))
      else if redirection then f.refuse (.unsupportedRedirection (String.ofList run))
      else f.refuse (.unsupportedOperator (String.ofList run))
    | .letters text =>
      if isNameChar c then f.goTo (.letters (text ++ [c]))
      else if c = '=' then f.goTo (.valueStart (String.ofList text))
      else stepBare f .plain ⟨[], text, false⟩ c
    | .valueStart name =>
      if c = '(' then f.goTo (.arrayGap name [])
      else if isWordEnd c then stepGap (assigned f name (.literal "")) c
      else startWord f (.value name) c
    | .arrayGap name elements => stepArrayGap f name elements c
    | .arrayComment name elements =>
      if c = '\n' then stepArrayGap f name elements c else f.goTo (.arrayComment name elements)
    | .arrayEnd name elements =>
      if isWordEnd c then stepGap (assigned f name (.array elements)) c
      else f.refuse (.unexpectedAfterArray c name)
    | .word place p mode => stepWord inner f place p mode c

/-! ## The end of the text -/

/-- A reading that was refused. -/
def refusal (f : Frame) (reason : SyntaxError) : Reading :=
  ⟨.error (.refused reason), f.ignored⟩

/-- A reading that came to its end between words. -/
def complete (f : Frame) : Reading :=
  ⟨.ok f.endStatement.done, f.ignored⟩

/-- The text ends with a word. -/
def finishWord (f : Frame) (place : Place) (p : Pieces) : Reading :=
  match endWord f place p with
  | (g, .arrayGap name _) => refusal g (.unmatchedArray name)
  | (g, _) => complete g

/-- The text ends where an expansion without an end mark does. Between double quotes
their end is then missing. -/
def finishExpansion (double : Bool) (f : Frame) (place : Place) (p : Pieces) : Reading :=
  if double then refusal f .unterminatedDoubleQuote else finishWord f place p

/-- What the end of the text makes of the state. -/
def finish : State → Reading
  | .halted halt ignored => ⟨.error halt, ignored⟩
  | .running done draft position ignored =>
    let f : Frame := ⟨done, draft, ignored⟩
    match position with
    | .gap => complete f
    | .comment => complete f
    | .operator redirection run =>
      if redirection then refusal f (.unsupportedRedirection (String.ofList run))
      else refusal f (.unsupportedOperator (String.ofList run))
    | .letters text => finishWord f .plain ⟨[], text, false⟩
    | .valueStart name => complete (assigned f name (.literal ""))
    | .arrayGap name _ => refusal f (.unmatchedArray name)
    | .arrayComment name _ => refusal f (.unmatchedArray name)
    | .arrayEnd name elements => complete (assigned f name (.array elements))
    | .word place p mode =>
      match mode with
      | .tilde => finishWord f place (p.addExpansion (.variable "HOME"))
      | .bare => finishWord f place p
      | .escape => finishWord f place (p.addChar '\\')
      | .single => refusal f .unterminatedSingleQuote
      | .double => refusal f .unterminatedDoubleQuote
      | .doubleEscape => refusal f .unterminatedDoubleQuote
      | .dollar double => finishExpansion double f place (p.addChar '$')
      | .name double letters =>
        finishExpansion double f place (p.addExpansion (.variable (String.ofList letters)))
      | .braces .. => refusal f .unterminatedBraces
      | .parens .. => refusal f .unterminatedSubstitution
      | .backquote .. => refusal f .unterminatedBackquote
      | .backquoteEscape .. => refusal f .unterminatedBackquote

/-! ## Reading a text -/

/-- Reads `text`, with `inner` for the texts of its substitutions. -/
def readWith (inner : List Char → Reading) (text : List Char) : Reading :=
  finish (text.foldl (step inner) State.start)

/-- Reads `text` with substitutions at most `depth` deep. -/
def readWithin : Nat → List Char → Reading
  | 0, _ => ⟨.error .stalled, []⟩
  | depth + 1, text => readWith (readWithin depth) text

/-- Reads `text`. The text of a substitution is shorter than the text around it, so
one level for each character is more than enough. -/
def read (text : List Char) : Reading :=
  readWithin (text.length + 1) text

end Reader

/-- The statements of a command text. -/
def readStatements (text : String) : Reading :=
  Reader.read text.toList

end ScriptRunner

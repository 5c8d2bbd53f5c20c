import ScriptRunner.Text.Blank

/-!
# ScriptRunner.Document.Yaml.Cursor

A place in a YAML text, with its line and column, and the character classes of YAML.

Five characters break lines. Within scalars a line break counts as a line feed, except
for the two separators that only Unicode knows, which stay what they are.
-/

namespace ScriptRunner.Yaml

/-- A place in a text: what follows, and where it is. -/
structure Cursor where
  rest : List Char
  index : Nat
  line : Nat
  column : Nat

/-- Characters that may occur in a text at all. -/
def isAllowed (c : Char) : Bool :=
  c == '\t' || c == '\n' || c == '\r' || (0x20 ≤ c.toNat && c.toNat ≤ 0x7E) || c.toNat == 0x85 ||
    (0xA0 ≤ c.toNat && c.toNat ≤ 0xD7FF) || (0xE000 ≤ c.toNat && c.toNat ≤ 0xFFFD) ||
    0x10000 ≤ c.toNat

/-- Characters that break lines. -/
def isBreak (c : Char) : Bool :=
  c == '\n' || c == '\r' || c == '\x85' || c == '\u2028' || c == '\u2029'

/-- Blanks within a line. -/
def isGap (c : Char) : Bool := c == ' ' || c == '\t'

/-- Characters of names. -/
def isNameLetter (c : Char) : Bool :=
  isAsciiLetter c || isAsciiDigit c || c == '_' || c == '-'

namespace Cursor

/-- The start of a text. -/
def start (text : List Char) : Cursor := ⟨text, 0, 0, 0⟩

/-- The character `n` places on. -/
def peek (c : Cursor) (n : Nat) : Option Char := c.rest[n]?

/-- Whether the character here is `x`. -/
def stands (c : Cursor) (x : Char) : Bool := c.peek 0 == some x

/-- Whether the text ends here. -/
def atEnd (c : Cursor) : Bool := c.rest.isEmpty

/-- Whether a line break is here. -/
def atBreak (c : Cursor) : Bool := (c.peek 0).any isBreak

/-- Whether a blank is here. -/
def atGap (c : Cursor) : Bool := (c.peek 0).any isGap

/-- Whether a blank, a line break or the end of the text is `n` places on. -/
def blankAt (c : Cursor) (n : Nat) : Bool :=
  match c.peek n with
  | some x => isGap x || isBreak x
  | none => true

/-- Whether a line break or the end of the text is here. -/
def atLineEnd (c : Cursor) : Bool := c.atEnd || c.atBreak

/-- The next place on the same line. -/
def skip (c : Cursor) : Cursor :=
  match c.rest with
  | [] => c
  | _ :: rest => ⟨rest, c.index + 1, c.line, c.column + 1⟩

/-- A place further on the same line. -/
def skipMany (c : Cursor) : Nat → Cursor
  | 0 => c
  | n + 1 => c.skip.skipMany n

/-- The start of the next line, from a line break. -/
def skipBreak (c : Cursor) : Cursor :=
  match c.rest with
  | '\r' :: '\n' :: rest => ⟨rest, c.index + 2, c.line + 1, 0⟩
  | x :: rest => if isBreak x then ⟨rest, c.index + 1, c.line + 1, 0⟩ else c
  | [] => c

/-- How the line break here counts within a scalar. -/
def breakText (c : Cursor) : List Char :=
  match c.rest with
  | x :: _ => if x = '\u2028' ∨ x = '\u2029' then [x] else if isBreak x then ['\n'] else []
  | [] => []

/-- The place after all characters here that `p` holds of, on one line. -/
def skipWhile (p : Char → Bool) (c : Cursor) : Cursor :=
  c.skipMany (c.rest.takeWhile p).length

/-- The place after the rest of the line, its break not included. -/
def skipToLineEnd (c : Cursor) : Cursor := c.skipWhile (fun x => !isBreak x)

/-- Whether the mark of a document's start or end stands here, at the start of a line. -/
def atMark (c : Cursor) (x : Char) : Bool :=
  c.column == 0 && c.rest.take 3 == [x, x, x] && c.blankAt 3

/-- Whether the mark of a document's start or end stands here. -/
def atDocumentMark (c : Cursor) : Bool := c.atMark '-' || c.atMark '.'

end Cursor

end ScriptRunner.Yaml

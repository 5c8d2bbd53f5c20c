/-!
# ScriptRunner.Text.Blank

White space and trimming. Text is handled as a list of characters, so that every
function on it is a plain recursion that proofs can follow.

White space means the Unicode property `White_Space`, the class by which lines,
captured output and `${…}` expressions are trimmed. The narrower set that may
separate the words of a command is `isCommandBlank`: every other white space
character stands for itself there (`Command/Reader.lean` says what that means).
-/

namespace ScriptRunner

/-- The characters with the Unicode property `White_Space`. -/
def isBlank (c : Char) : Bool :=
  let n := c.toNat
  (0x09 ≤ n && n ≤ 0x0D) || n == 0x20 || n == 0x85 || n == 0xA0 || n == 0x1680
    || (0x2000 ≤ n && n ≤ 0x200A) || n == 0x2028 || n == 0x2029 || n == 0x202F
    || n == 0x205F || n == 0x3000

/-- The blanks that separate the words of one statement. A line feed is not among
them, because it ends the statement. -/
def isCommandBlank (c : Char) : Bool :=
  c == ' ' || c == '\t' || c == '\r'

theorem isBlank_of_isCommandBlank {c : Char} (h : isCommandBlank c = true) :
    isBlank c = true := by
  simp only [isCommandBlank, Bool.or_eq_true, beq_iff_eq] at h
  rcases h with (rfl | rfl) | rfl <;> decide

/-- ASCII letters. -/
def isAsciiLetter (c : Char) : Bool :=
  ('a' ≤ c && c ≤ 'z') || ('A' ≤ c && c ≤ 'Z')

/-- ASCII decimal digits. -/
def isAsciiDigit (c : Char) : Bool :=
  '0' ≤ c && c ≤ '9'

namespace Text

/-- `text` without its leading white space. -/
def trimStart (text : List Char) : List Char :=
  text.dropWhile isBlank

/-- `text` without the longest suffix of characters that satisfy `p`. -/
def dropEndWhile (p : Char → Bool) (text : List Char) : List Char :=
  (text.reverse.dropWhile p).reverse

/-- `text` without its trailing white space. -/
def trimEnd (text : List Char) : List Char :=
  dropEndWhile isBlank text

/-- `text` without white space at either end. -/
def trim (text : List Char) : List Char :=
  trimEnd (trimStart text)

@[simp] theorem trimStart_nil : trimStart [] = [] := rfl

@[simp] theorem trim_nil : trim [] = [] := rfl

/-- The last character of `text`, if it is `c`, is taken off. -/
def stripLast (c : Char) (text : List Char) : List Char :=
  match text.reverse with
  | d :: rest => if d = c then rest.reverse else text
  | [] => []

/-- The pieces of a list of texts, with `sep` between each two. -/
def join (sep : List Char) : List (List Char) → List Char
  | [] => []
  | [t] => t
  | t :: ts => t ++ sep ++ join sep ts

@[simp] theorem join_nil (sep : List Char) : join sep [] = [] := rfl

@[simp] theorem join_singleton (sep t : List Char) : join sep [t] = t := rfl

theorem join_cons_cons (sep t u : List Char) (ts : List (List Char)) :
    join sep (t :: u :: ts) = t ++ sep ++ join sep (u :: ts) := rfl

/-- ASCII letters in lower case, everything else unchanged. -/
def lowerAscii (text : List Char) : List Char :=
  text.map Char.toLower

end Text

/-- Words joined by single spaces. -/
def joinBySpace (words : List String) : String :=
  " ".intercalate words

end ScriptRunner

import ScriptRunner.Text.Blank

/-!
# ScriptRunner.Quoting

Words written as one command line. `joinWords` quotes each word so that reading the
line back gives the same words.

A word is cut into chunks. A chunk is the longest beginning of what is left that one
style can hold, and it is written in the first style that can hold all of it:
unquoted, single quotes, double quotes. No style holds a circumflex in the middle of
a chunk; at the start of a chunk it forces single quotes. A word with a NUL cannot
be quoted, and then the words are joined as they are.
-/

namespace ScriptRunner

/-- The ways to write a chunk of a word. -/
inductive QuoteStyle
  /-- As it stands. -/
  | bare
  /-- Between apostrophes. -/
  | single
  /-- Between double quotes, with `"` and `\` escaped. -/
  | double
  deriving DecidableEq, Repr

namespace QuoteStyle

/-- Characters that mean themselves outside quotes. -/
def isBareSafe (c : Char) : Bool :=
  isAsciiLetter c || isAsciiDigit c
    || c == '+' || c == '-' || c == '.' || c == '/' || c == ':' || c == '@' || c == ']' || c == '_'

/-- Whether `c` may stand in a chunk of this style, its first character apart. -/
def holds (style : QuoteStyle) (c : Char) : Bool :=
  match style with
  | bare => isBareSafe c
  | single => c != '\'' && c != '^' && c != '\\'
  | double => c != '\x60' && c != '$' && c != '!' && c != '^'

/-- The chunk in this style. -/
def write (style : QuoteStyle) (chunk : List Char) : List Char :=
  match style with
  | bare => chunk
  | single => '\'' :: (chunk ++ ['\''])
  | double =>
    '"' :: (chunk.flatMap (fun c => if c = '"' ∨ c = '\\' then ['\\', c] else [c]) ++ ['"'])

/-- The styles in order of preference. -/
def all : List QuoteStyle := [bare, single, double]

end QuoteStyle

namespace Quoting

/-- The styles of `styles` that can hold `c` as well. -/
def narrow (styles : List QuoteStyle) (c : Char) : List QuoteStyle :=
  styles.filter (·.holds c)

/-- Grows a chunk as long as some style can hold it: the rest of the chunk, the styles
that can hold all of it, and what is left. -/
def grow (styles : List QuoteStyle) : List Char → List Char × List QuoteStyle × List Char
  | [] => ([], styles, [])
  | c :: rest =>
    if (narrow styles c).isEmpty then ([], styles, c :: rest)
    else
      let (chunk, final, left) := grow (narrow styles c) rest
      (c :: chunk, final, left)

theorem length_grow_le (styles : List QuoteStyle) (text : List Char) :
    (grow styles text).2.2.length ≤ text.length := by
  induction text generalizing styles with
  | nil => simp [grow]
  | cons c rest ih =>
    simp only [grow]
    split
    · simp
    · exact Nat.le_succ_of_le (ih _)

/-- The styles open to a chunk that starts with `c`. -/
def stylesAt (c : Char) : List QuoteStyle :=
  if c = '^' then [.single] else narrow QuoteStyle.all c

/-- A word in chunks. -/
def writeChunks : List Char → List Char
  | [] => []
  | c :: rest =>
    let grown := grow (stylesAt c) rest
    (grown.2.1.headD .single).write (c :: grown.1) ++ writeChunks grown.2.2
termination_by text => text.length
decreasing_by exact Nat.lt_succ_of_le (length_grow_le _ _)

/-- A word as it is written on a command line; the empty word needs its quotes. -/
def quoteWord (word : List Char) : List Char :=
  if word.isEmpty then ['\'', '\''] else writeChunks word

end Quoting

/-- Words as one command line that reads back as the same words. With a NUL in a word,
which no quoting can carry, the words are only joined. -/
def joinWords (words : List String) : String :=
  if words.any (fun w => w.toList.contains '\x00') then joinBySpace words
  else
    String.ofList (Text.join [' '] (words.map (fun w => Quoting.quoteWord w.toList)))

end ScriptRunner

import ScriptRunner.Document.Json
import ScriptRunner.Document.Yaml.Cursor

/-!
# ScriptRunner.Document.Yaml.Scalar

The scalars of YAML: how they are read in their five styles, and what a plain one stands
for.

Within plain and quoted scalars a line break counts as a space, and further line breaks
as themselves (`Gap.text`). Within block scalars the lines are kept or folded, by their
indentation.
-/

namespace ScriptRunner.Yaml

/-- How a scalar is written. -/
inductive Style
  | plain
  | single
  | double
  /-- After `|`: line breaks are kept. -/
  | literal
  /-- After `>`: line breaks are folded. -/
  | folded
  deriving DecidableEq, Repr

/-! ## Blanks within scalars -/

/-- Blanks and line breaks within a scalar. -/
structure Gap where
  /-- The blanks before the first line break. -/
  blanks : List Char
  firstBreak : List Char
  moreBreaks : List Char
  /-- Whether there was a line break. -/
  broken : Bool

namespace Gap

/-- No blanks. -/
def empty : Gap := ⟨[], [], [], false⟩

/-- What blanks and line breaks count as. -/
def text (g : Gap) : List Char :=
  if g.broken then
    if g.firstBreak.head? = some '\n' then
      if g.moreBreaks.isEmpty then [' '] else g.moreBreaks
    else g.firstBreak ++ g.moreBreaks
  else g.blanks

/-- The blanks and line breaks here. A tab may not stand for indentation: after a line
break, it may not come before column `indent`. -/
def readWithin (indent : Int) : Nat → Gap → Cursor → Option (Gap × Cursor)
  | 0, g, c => some (g, c)
  | fuel + 1, g, c =>
    match c.peek 0 with
    | none => some (g, c)
    | some x =>
      if isGap x then
        if g.broken then
          if x = '\t' ∧ (c.column : Int) < indent then none
          else readWithin indent fuel g c.skip
        else readWithin indent fuel { g with blanks := g.blanks ++ [x] } c.skip
      else if isBreak x then
        if g.broken then
          readWithin indent fuel { g with moreBreaks := g.moreBreaks ++ c.breakText } c.skipBreak
        else readWithin indent fuel ⟨[], c.breakText, [], true⟩ c.skipBreak
      else some (g, c)

/-- The blanks and line breaks here, after those of `g`. -/
def read (indent : Int) (g : Gap) (c : Cursor) : Option (Gap × Cursor) :=
  readWithin indent c.rest.length g c

end Gap

/-! ## Plain scalars -/

/-- Characters that end a plain scalar between brackets. -/
def isFlowMark (c : Char) : Bool :=
  c == ',' || c == '[' || c == ']' || c == '\x7b' || c == '\x7d'

/-- What reading a scalar gives: its text, whether line breaks follow it that were read
too, and the place after it. -/
structure ScalarRead where
  text : List Char
  broken : Bool
  after : Cursor

/-- Reads a plain scalar. `text` is what has been read, `gap` the blanks after it. The flag
`fresh` says that the scalar might end before the character here: at the start of a line
and after blanks. Between brackets (`flow`) the indentation does not matter. -/
def plainWithin (flow : Bool) (indent : Int) :
    Nat → Bool → List Char → Gap → Cursor → Option ScalarRead
  | 0, _, text, gap, c => some ⟨text, gap.broken, c⟩
  | fuel + 1, fresh, text, gap, c =>
    if fresh && (c.atDocumentMark || c.stands '#') then some ⟨text, gap.broken, c⟩
    else
      match c.peek 0 with
      | none => some ⟨text, gap.broken, c⟩
      | some x =>
        if isGap x || isBreak x then do
          let (gap, c) ← Gap.read indent gap c
          if !flow && (c.column : Int) < indent then pure ⟨text, gap.broken, c⟩
          else plainWithin flow indent fuel true text gap c
        else if flow && x == ':' && (c.peek 1).any (fun y => isFlowMark y || y == '?') then none
        else if (x == ':' && c.blankAt 1) || (flow && isFlowMark x) then
          some ⟨text, gap.broken, c⟩
        else plainWithin flow indent fuel false (text ++ gap.text ++ [x]) Gap.empty c.skip

/-- Reads a plain scalar. -/
def readPlain (flow : Bool) (indent : Int) (c : Cursor) : Option ScalarRead :=
  plainWithin flow indent (2 * c.rest.length + 2) true [] Gap.empty c

/-! ## Quoted scalars -/

/-- The character of an escape with one letter. -/
def simpleEscape? (c : Char) : Option Char :=
  match c with
  | '0' => some '\x00'
  | 'a' => some '\x07'
  | 'b' => some '\x08'
  | 't' => some '\t'
  | '\t' => some '\t'
  | 'n' => some '\n'
  | 'v' => some '\x0b'
  | 'f' => some '\x0c'
  | 'r' => some '\r'
  | 'e' => some '\x1b'
  | ' ' => some ' '
  | '"' => some '"'
  | '/' => some '/'
  | '\\' => some '\\'
  | 'N' => some '\u0085'
  | '_' => some '\u00a0'
  | 'L' => some '\u2028'
  | 'P' => some '\u2029'
  | _ => none

/-- The number of hexadecimal digits of an escape. -/
def escapeWidth? (c : Char) : Option Nat :=
  if c = 'x' then some 2 else if c = 'u' then some 4 else if c = 'U' then some 8 else none

/-- The character of a number, if it has one. -/
def scalarValue? (n : Nat) : Option Char :=
  if h : n.isValidChar then some (Char.ofNatAux n h) else none

/-- The character of the escape whose letter stands here, and the place after it. -/
def readEscape (c : Cursor) : Option (Char × Cursor) := do
  let letter ← c.peek 0
  match simpleEscape? letter with
  | some x => pure (x, c.skip)
  | none => do
    let width ← escapeWidth? letter
    let digits := (c.skip.rest).take width
    if digits.length < width then none
    else do
      let n ← digits.foldlM (fun n d => (Json.hexValue? d).map (n * 16 + ·)) 0
      let x ← scalarValue? n
      pure (x, c.skip.skipMany width)

/-- Reads a quoted scalar after its opening quote. A document's mark at the start of a line
may not stand in it. -/
def quotedWithin (single : Bool) : Nat → Bool → List Char → Cursor → Option ScalarRead
  | 0, _, _, _ => none
  | fuel + 1, fresh, text, c =>
    if fresh && c.atDocumentMark then none
    else
      match c.peek 0 with
      | none => none
      | some x =>
        if isGap x || isBreak x then do
          let (gap, c) ← Gap.read (-1) Gap.empty c
          quotedWithin single fuel true (text ++ gap.text) c
        else if single then
          if x = '\'' then
            if c.peek 1 = some '\'' then
              quotedWithin single fuel false (text ++ ['\'']) c.skip.skip
            else some ⟨text, false, c.skip⟩
          else quotedWithin single fuel false (text ++ [x]) c.skip
        else if x = '"' then some ⟨text, false, c.skip⟩
        else if x = '\\' then
          if c.skip.atBreak then do
            let (gap, c) ← Gap.read (-1) ⟨[], [], [], true⟩ c.skip.skipBreak
            quotedWithin single fuel true (text ++ gap.text) c
          else do
            let (y, c) ← readEscape c.skip
            quotedWithin single fuel false (text ++ [y]) c
        else quotedWithin single fuel false (text ++ [x]) c.skip

/-- Reads a quoted scalar from its opening quote. -/
def readQuoted (single : Bool) (c : Cursor) : Option ScalarRead :=
  quotedWithin single (c.rest.length + 1) true [] c.skip

/-! ## Block scalars -/

/-- What happens to the line breaks at the end of a block scalar. -/
inductive Chomping
  /-- The last one is kept. -/
  | clip
  | strip
  | keep
  deriving DecidableEq, Repr

/-- The chomping that a character asks for. -/
def chomping? (c : Char) : Option Chomping :=
  if c = '+' then some .keep else if c = '-' then some .strip else none

/-- The indentation that a digit asks for; zero is none. -/
def indentation? (c : Char) : Option Nat :=
  if isAsciiDigit c && c != '0' then some (c.toNat - '0'.toNat) else none

/-- The chomping and the indentation asked for after `|` or `>`, in either order. -/
def readHeader (c : Cursor) : Option (Chomping × Option Nat × Cursor) :=
  match c.peek 0 with
  | none => some (.clip, none, c)
  | some x =>
    match chomping? x with
    | some chomping =>
      match c.peek 1 with
      | some y =>
        if isAsciiDigit y then do
          let width ← indentation? y
          pure (chomping, some width, c.skip.skip)
        else some (chomping, none, c.skip)
      | none => some (chomping, none, c.skip)
    | none =>
      if isAsciiDigit x then do
        let width ← indentation? x
        match (c.peek 1).bind chomping? with
        | some chomping => pure (chomping, some width, c.skip.skip)
        | none => pure (.clip, some width, c.skip)
      else some (.clip, none, c)

/-- Skips indentation and empty lines of a block scalar. Without a known indentation it is
found here: the furthest column reached, `widest` being that so far. A tab may not be
within the indentation. -/
def readBreaksWithin (indent : Option Nat) :
    Nat → Nat → List Char → Cursor → Option (Nat × List Char × Cursor)
  | 0, widest, breaks, c => some (widest, breaks, c)
  | fuel + 1, widest, breaks, c =>
    let inside (column : Nat) : Bool :=
      match indent with
      | some n => column < n
      | none => true
    if inside c.column && c.stands ' ' then readBreaksWithin indent fuel widest breaks c.skip
    else
      let widest := max widest c.column
      if inside c.column && c.stands '\t' then none
      else if c.atBreak then
        readBreaksWithin indent fuel widest (breaks ++ c.breakText) c.skipBreak
      else some (widest, breaks, c)

/-- Skips indentation and empty lines of a block scalar; gives the indentation, which is at
least one more than that of the block around. -/
def readBreaks (around : Int) (indent : Option Nat) (c : Cursor) :
    Option (Nat × List Char × Cursor) := do
  let (widest, breaks, c) ← readBreaksWithin indent (c.rest.length + 1) 0 [] c
  pure (indent.getD (max (max widest (around + 1).toNat) 1), breaks, c)

/-- The lines of a block scalar so far: its text, the line break after it, and the breaks
of empty lines after that. -/
structure BlockText where
  text : List Char
  lastBreak : List Char
  emptyLines : List Char
  /-- Whether the last line starts with a blank. -/
  indented : Bool

namespace BlockText

/-- The text with the line breaks before a further line. Folding joins two lines that do
not start with blanks. -/
def joined (folded : Bool) (b : BlockText) (nextIndented : Bool) : List Char :=
  if folded && b.lastBreak.head? == some '\n' && !b.indented && !nextIndented then
    b.text ++ (if b.emptyLines.isEmpty then [' '] else []) ++ b.emptyLines
  else b.text ++ b.lastBreak ++ b.emptyLines

/-- The text with the line breaks at its end. -/
def finish (b : BlockText) : Chomping → List Char
  | .strip => b.text
  | .clip => b.text ++ b.lastBreak
  | .keep => b.text ++ b.lastBreak ++ b.emptyLines

end BlockText

/-- Reads the lines of a block scalar. -/
def blockLinesWithin (folded : Bool) (around : Int) (indent : Nat) :
    Nat → BlockText → Cursor → Option (BlockText × Cursor)
  | 0, b, c => some (b, c)
  | fuel + 1, b, c =>
    if c.column = indent ∧ c.atEnd = false then do
      let text := b.joined folded c.atGap
      let line := c.rest.takeWhile (fun x => !isBreak x)
      let after := c.skipToLineEnd
      let (_, breaks, next) ← readBreaks around (some indent) after.skipBreak
      blockLinesWithin folded around indent fuel
        ⟨text ++ line, after.breakText, breaks, c.atGap⟩ next
    else some (b, c)

/-- Reads a block scalar from its `|` or `>`. `around` is the indentation of the block
around it, -1 if there is none. -/
def readBlock (folded : Bool) (around : Int) (c : Cursor) : Option ScalarRead := do
  let (chomping, width, c) ← readHeader c.skip
  let c := c.skipWhile isGap
  let c := if c.stands '#' then c.skipToLineEnd else c
  if !c.atLineEnd then none
  else do
    let base := if 0 ≤ around then around.toNat else 0
    let (indent, breaks, c) ← readBreaks around (width.map (base + ·)) c.skipBreak
    let (b, c) ←
      blockLinesWithin folded around indent (c.rest.length + 1) ⟨[], [], breaks, false⟩ c
    pure ⟨b.finish chomping, false, c⟩

/-! ## What plain scalars stand for -/

/-- The value of digits in a base, if all are digits of it and there is at least one. -/
def digitsIn? (base : Nat) (digits : List Char) : Option Nat :=
  if digits.isEmpty then none
  else
    digits.foldlM (fun n c =>
      match Json.hexValue? c with
      | some d => if d < base then some (n * base + d) else none
      | none => none) 0

/-- The text without a sign at its start. -/
def unsigned (text : List Char) : List Char :=
  match text with
  | c :: rest => if c = '-' ∨ c = '+' then rest else text
  | [] => []

/-- Digits that are a text because they start with a zero. -/
def isZeroLed (text : List Char) : Bool :=
  match unsigned text with
  | '0' :: d :: rest => (d :: rest).all isAsciiDigit
  | _ => false

/-- A whole number without a minus, if the text is one. -/
def wholeNumber? (text : List Char) : Option Nat :=
  let plain := match text with
    | '+' :: rest => rest
    | _ => text
  let marked :=
    match plain with
    | '0' :: 'x' :: digits => digitsIn? 16 digits
    | '0' :: 'o' :: digits => digitsIn? 8 digits
    | '0' :: 'b' :: digits => digitsIn? 2 digits
    | _ => none
  match marked with
  | some n => some n
  | none => if isZeroLed text then none else digitsIn? 10 plain

/-- The size of a whole number with a minus, if the text is one. -/
def negativeNumber? : List Char → Option Nat
  | '-' :: rest =>
    match rest with
    | '0' :: 'x' :: digits => digitsIn? 16 digits
    | '0' :: 'o' :: digits => digitsIn? 8 digits
    | '0' :: 'b' :: digits => digitsIn? 2 digits
    | _ => if isZeroLed rest then none else digitsIn? 10 rest
  | _ => none

/-- What a whole number stands for. One that needs more than 64 bits, and not more than
128, cannot be used as a value. `none` is left for larger ones. -/
def integer? (text : List Char) : Option Scalar :=
  match wholeNumber? text with
  | some n =>
    if n < 1 <<< 64 then some (.natural n)
    else if n < 1 <<< 128 then some .unusable
    else none
  | none =>
    match negativeNumber? text with
    | some n =>
      if n ≤ 1 <<< 63 then some .number
      else if n ≤ 1 <<< 127 then some .unusable
      else none
    | none => none

/-- The names of numbers that have no digits. -/
def isSpecialNumber (text : List Char) : Bool :=
  [".inf", ".Inf", ".INF", "+.inf", "+.Inf", "+.INF", "-.inf", "-.Inf", "-.INF", ".nan", ".NaN",
    ".NAN"].any (fun name => name.toList == text)

/-- The exponent of a number, as digits with a sign; the text has to end after it. -/
def exponentOf? : List Char → Option (Option (Bool × List Char))
  | [] => some none
  | c :: rest =>
    if c = 'e' ∨ c = 'E' then
      let digits := unsigned rest
      if digits.isEmpty || !digits.all isAsciiDigit then none
      else some (some (rest.head? == some '-', digits))
    else none

/-- A number with digits, an optional point and an optional exponent, not beyond the
doubles. Digits may be missing before or after the point, but not both. -/
def isFloat (text : List Char) : Bool :=
  let plain := unsigned text
  let whole := plain.takeWhile isAsciiDigit
  let afterWhole := plain.dropWhile isAsciiDigit
  let (fraction, afterFraction) :=
    match afterWhole with
    | '.' :: rest => (rest.takeWhile isAsciiDigit, rest.dropWhile isAsciiDigit)
    | _ => ([], afterWhole)
  match exponentOf? afterFraction with
  | none => false
  | some exponent =>
    !(whole.isEmpty && fraction.isEmpty) &&
      !(Json.Numeral.beyond ⟨false, whole, some fraction, exponent⟩)

/-- What a plain scalar stands for. -/
def resolvePlain (text : List Char) : Scalar :=
  let s := String.ofList text
  if s = "" ∨ s = "null" ∨ s = "Null" ∨ s = "NULL" ∨ s = "~" then .null
  else if s = "true" ∨ s = "True" ∨ s = "TRUE" then .boolean true
  else if s = "false" ∨ s = "False" ∨ s = "FALSE" then .boolean false
  else
    match integer? text with
    | some value => value
    | none =>
      if !isZeroLed text && (isSpecialNumber text || isFloat text) then .number else .text s

/-- The start of the tags that YAML itself defines. -/
def coreTag : String := "tag:yaml.org,2002:"

/-- What a scalar with a style and a tag stands for. -/
def resolve (style : Style) (tag : Option String) (text : List Char) : Scalar :=
  let s := String.ofList text
  match tag with
  | none => if style = .plain then resolvePlain text else .text s
  | some tag =>
    if tag.startsWith "!" then .unusable
    else if tag = coreTag ++ "null" then
      if s = "null" ∨ s = "Null" ∨ s = "NULL" ∨ s = "~" then .null else .unusable
    else if tag = coreTag ++ "bool" then
      match resolvePlain text with
      | .boolean b => .boolean b
      | _ => .unusable
    else if tag = coreTag ++ "int" then (integer? text).getD .unusable
    else if tag = coreTag ++ "float" then
      if isSpecialNumber text || isFloat text then .number else .unusable
    else .text s

end ScriptRunner.Yaml

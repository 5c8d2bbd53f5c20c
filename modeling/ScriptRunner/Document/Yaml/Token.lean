import ScriptRunner.Document.Yaml.Scalar
import ScriptRunner.Text.Utf8

/-!
# ScriptRunner.Document.Yaml.Token

The tokens of a YAML text.

Blocks have no brackets: where lines are indented further than before, a token says that a
block starts, and where they are less indented, one or more say that blocks end. The key
of a map may stand before the colon that makes it a key. Every place where such a key may
have started is remembered (`KeyStart`), and when the colon comes, the tokens that say so
are put in front of the key.
-/

namespace ScriptRunner.Yaml

/-- A token. -/
inductive Token
  | versionDirective (major minor : Nat)
  | tagDirective (handle tag : List Char)
  | documentStart
  | documentEnd
  | blockListStart
  | blockMapStart
  | blockEnd
  | openList
  | closeList
  | openMap
  | closeMap
  | comma
  /-- The dash of a list. -/
  | dash
  | key
  | value
  | alias (name : List Char)
  | anchor (name : List Char)
  | tag (handle suffix : List Char)
  | scalar (style : Style) (text : List Char)
  | streamEnd
  deriving DecidableEq, Repr

/-- A place where the key of a map may have started. -/
structure KeyStart where
  /-- The number of tokens before it. -/
  position : Nat
  index : Nat
  line : Nat
  column : Nat
  /-- Whether it has to be a key, because nothing else can stand there. -/
  required : Bool

/-- The state of reading tokens. -/
structure Scan where
  cursor : Cursor
  tokens : List Token
  /-- The indentation of the innermost block, -1 outside of all. -/
  indent : Int
  /-- The indentations of the blocks around it, the innermost first. -/
  around : List Int
  /-- For each open bracket and outside of all, the place where a key may have started,
  the innermost first. -/
  keyStarts : List (Option KeyStart)
  /-- Whether a key may start here. -/
  keyAllowed : Bool

namespace Scan

/-- Before the first token. -/
def start (text : List Char) : Scan :=
  ⟨Cursor.start text, [], -1, [], [none], true⟩

/-- Whether a bracket is open. -/
def inFlow (s : Scan) : Bool := 1 < s.keyStarts.length

/-- One more token. -/
def push (s : Scan) (t : Token) : Scan := { s with tokens := s.tokens ++ [t] }

/-- The state at another place. -/
def moveTo (s : Scan) (c : Cursor) : Scan := { s with cursor := c }

/-- The state with keys allowed or not. -/
def allow (s : Scan) (allowed : Bool) : Scan := { s with keyAllowed := allowed }

/-! ### Indentation -/

/-- Ends all blocks that are indented further than `column`. -/
def unrollWithin (column : Int) : List Int → Scan → Scan
  | [], s => if column < s.indent then { s.push .blockEnd with indent := -1 } else s
  | outer :: rest, s =>
    if column < s.indent then
      unrollWithin column rest { s.push .blockEnd with indent := outer, around := rest }
    else s

/-- Ends all blocks that are indented further than `column`, unless a bracket is open. -/
def unroll (s : Scan) (column : Int) : Scan :=
  if s.inFlow then s else unrollWithin column s.around s

/-- Starts a block at `column` if it is further in, unless a bracket is open. `position`
is where its first token goes. -/
def roll (s : Scan) (column position : Nat) (t : Token) : Scan :=
  if s.inFlow then s
  else if s.indent < column then
    { s with
      tokens := s.tokens.insertIdx position t
      indent := column
      around := s.indent :: s.around }
  else s

/-! ### Keys -/

/-- Forgets the innermost place where a key may have started. A key that has to be one
is missing its colon. -/
def dropKey (s : Scan) : Option Scan :=
  match s.keyStarts with
  | some k :: rest => if k.required then none else some { s with keyStarts := none :: rest }
  | _ => some s

/-- Remembers this place as one where a key may start, if one may. -/
def saveKey (s : Scan) : Option Scan :=
  if s.keyAllowed then do
    let s ← s.dropKey
    let c := s.cursor
    let here : KeyStart :=
      ⟨s.tokens.length, c.index, c.line, c.column, !s.inFlow && s.indent == c.column⟩
    pure { s with keyStarts := some here :: s.keyStarts.tail }
  else some s

/-- The longest key before a colon, in characters. -/
def keyLimit : Nat := 1024

/-- Whether a key that started there may still end here: on the same line, and not too far
away. -/
def isFresh (c : Cursor) (k : KeyStart) : Bool :=
  k.line == c.line && c.index ≤ k.index + keyLimit

/-- The places without those where no key can be any more. -/
def freshKeys (c : Cursor) : List (Option KeyStart) → Option (List (Option KeyStart))
  | [] => some []
  | none :: rest => (freshKeys c rest).map (none :: ·)
  | some k :: rest =>
    if isFresh c k then (freshKeys c rest).map (some k :: ·)
    else if k.required then none
    else (freshKeys c rest).map (none :: ·)

/-- Forgets the places where no key can be any more. -/
def dropStaleKeys (s : Scan) : Option Scan :=
  (freshKeys s.cursor s.keyStarts).map (fun ks => { s with keyStarts := ks })

/-! ### Blanks between tokens -/

/-- Whether a tab may stand between tokens here: not where it could be indentation. -/
def tabAllowed (s : Scan) : Bool := s.inFlow || !s.keyAllowed

/-- Skips blanks, comments and line breaks. After a line break, outside brackets, a key
may start. -/
def skipBlanksWithin : Nat → Scan → Scan
  | 0, s => s
  | fuel + 1, s =>
    let c := s.cursor
    match c.peek 0 with
    | none => s
    | some x =>
      if x = '\uFEFF' ∧ c.index = 0 then skipBlanksWithin fuel (s.moveTo c.skip)
      else if x = ' ' ∨ (x = '\t' ∧ s.tabAllowed) then skipBlanksWithin fuel (s.moveTo c.skip)
      else if x = '#' then skipBlanksWithin fuel (s.moveTo c.skipToLineEnd)
      else if isBreak x then
        let next := s.moveTo c.skipBreak
        skipBlanksWithin fuel (if s.inFlow then next else next.allow true)
      else s

/-- Skips blanks, comments and line breaks. -/
def skipBlanks (s : Scan) : Scan := skipBlanksWithin (s.cursor.rest.length + 1) s

/-! ### Directives -/

/-- A number of a version. -/
def readVersionNumber (c : Cursor) : Option (Nat × Cursor) :=
  match c.rest.takeWhile isAsciiDigit with
  | [] => none
  | digits =>
    if 9 < digits.length then none
    else some (Json.digitsValue digits, c.skipMany digits.length)

/-- Characters of tags, besides those of names. -/
def isTagMark (c : Char) : Bool :=
  ";/?:@&=+$.!~*'()".toList.contains c

/-- A byte written as a percent sign and two digits. -/
def percentByte? : List Char → Option (UInt8 × List Char)
  | '%' :: a :: b :: rest => do
    let high ← Json.hexValue? a
    let low ← Json.hexValue? b
    pure (UInt8.ofNat (high * 16 + low), rest)
  | _ => none

/-- The letters of a tag and the place after them. `wide` admits commas and square brackets
too. A character may be written as its bytes, each after a percent sign. -/
def readTagTextWithin (wide : Bool) : Nat → List Char → Cursor → Option (List Char × Cursor)
  | 0, text, c => some (text, c)
  | fuel + 1, text, c =>
    match c.peek 0 with
    | none => some (text, c)
    | some x =>
      if x = '%' then do
        let (byte, _) ← percentByte? c.rest
        let width :=
          if byte < 0x80 then 1 else if 0xC0 ≤ byte && byte < 0xE0 then 2
          else if 0xE0 ≤ byte && byte < 0xF0 then 3
          else if 0xF0 ≤ byte && byte < 0xF8 then 4 else 0
        let bytes ← (List.range width).mapM (fun i => percentByte? (c.rest.drop (3 * i)))
        let decoded ← Utf8.decode? (bytes.map Prod.fst)
        if width = 0 then none
        else readTagTextWithin wide fuel (text ++ decoded.toList) (c.skipMany (3 * width))
      else if isNameLetter x || isTagMark x || (wide && (x == ',' || x == '[' || x == ']')) then
        readTagTextWithin wide fuel (text ++ [x]) c.skip
      else some (text, c)

/-- The letters of a tag and the place after them. -/
def readTagText (wide : Bool) (c : Cursor) : Option (List Char × Cursor) :=
  readTagTextWithin wide c.rest.length [] c

/-- The handle of a tag: what stands up to its second exclamation mark. The mark may be
missing in a tag; in a directive only after nothing but the first mark. -/
def readHandle (directive : Bool) (c : Cursor) : Option (List Char × Cursor) :=
  if !c.stands '!' then none
  else
    let letters := c.skip.rest.takeWhile isNameLetter
    let after := c.skip.skipMany letters.length
    if after.stands '!' then some ('!' :: letters ++ ['!'], after.skip)
    else if directive && !letters.isEmpty then none
    else some ('!' :: letters, after)

/-- Blanks, a comment and the end of a line. -/
def readDirectiveEnd (c : Cursor) : Option Cursor :=
  let c := c.skipWhile isGap
  let c := if c.stands '#' then c.skipToLineEnd else c
  if c.atLineEnd then some c.skipBreak else none

/-- A directive, from its percent sign. -/
def readDirective (c : Cursor) : Option (Token × Cursor) := do
  let name := c.skip.rest.takeWhile isNameLetter
  let c := c.skip.skipMany name.length
  if !c.blankAt 0 then none
  else if name = "YAML".toList then do
    let (major, c) ← readVersionNumber (c.skipWhile isGap)
    if !c.stands '.' then none
    else do
      let (minor, c) ← readVersionNumber c.skip
      let c ← readDirectiveEnd c
      pure (.versionDirective major minor, c)
  else if name = "TAG".toList then do
    let (handle, c) ← readHandle true (c.skipWhile isGap)
    if !c.atGap then none
    else do
      let (tag, c) ← readTagText true (c.skipWhile isGap)
      if tag.isEmpty || !c.blankAt 0 then none
      else do
        let c ← readDirectiveEnd c
        pure (.tagDirective handle tag, c)
  else none

/-! ### Anchors and tags -/

/-- The name of an anchor or alias, from its sign. -/
def readAnchorName (c : Cursor) : Option (List Char × Cursor) :=
  let name := c.skip.rest.takeWhile isNameLetter
  let after := c.skip.skipMany name.length
  if name.isEmpty then none
  else if after.blankAt 0 || (after.peek 0).any ("?:,]\x7d%@\x60".toList.contains ·) then
    some (name, after)
  else none

/-- A tag, from its exclamation mark. -/
def readTag (inFlow : Bool) (c : Cursor) : Option (Token × Cursor) := do
  let (token, after) ←
    if c.peek 1 = some '<' then do
      let (text, c) ← readTagText true c.skip.skip
      if text.isEmpty || !c.stands '>' then none
      else pure (Token.tag [] text, c.skip)
    else do
      let (handle, after) ← readHandle false c
      if 1 < handle.length ∧ handle.getLast? = some '!' then do
        let (suffix, c) ← readTagText false after
        if suffix.isEmpty then none else pure (Token.tag handle suffix, c)
      else do
        let (more, c) ← readTagText false after
        let suffix := handle.tail ++ more
        if suffix.isEmpty then pure (Token.tag [] ['!'], c) else pure (Token.tag ['!'] suffix, c)
  if after.blankAt 0 || (inFlow && after.stands ',') then pure (token, after) else none

/-! ### One token -/

/-- The end of the text: all blocks end. -/
def endStream (s : Scan) : Option Scan := do
  let s ← (s.unroll (-1)).dropKey
  pure ((s.allow false).push .streamEnd)

/-- A directive. -/
def takeDirective (s : Scan) : Option Scan := do
  let s ← (s.unroll (-1)).dropKey
  let (t, c) ← readDirective s.cursor
  pure (((s.allow false).moveTo c).push t)

/-- The mark of a document's start or end. -/
def takeDocumentMark (s : Scan) (t : Token) : Option Scan := do
  let s ← (s.unroll (-1)).dropKey
  pure (((s.allow false).moveTo (s.cursor.skipMany 3)).push t)

/-- An opening bracket. -/
def takeOpen (s : Scan) (t : Token) : Option Scan := do
  let s ← s.saveKey
  let s := { s with keyStarts := none :: s.keyStarts }
  pure (((s.allow true).moveTo s.cursor.skip).push t)

/-- A closing bracket. -/
def takeClose (s : Scan) (t : Token) : Option Scan := do
  let s ← s.dropKey
  let s := if s.inFlow then { s with keyStarts := s.keyStarts.tail } else s
  pure (((s.allow false).moveTo s.cursor.skip).push t)

/-- A comma between brackets. -/
def takeComma (s : Scan) : Option Scan := do
  let s ← s.dropKey
  pure (((s.allow true).moveTo s.cursor.skip).push .comma)

/-- The dash of a list. Outside brackets it starts a block where it is further in. -/
def takeDash (s : Scan) : Option Scan := do
  if !s.inFlow && !s.keyAllowed then none
  else do
    let s := s.roll s.cursor.column s.tokens.length .blockListStart
    let s ← s.dropKey
    pure (((s.allow true).moveTo s.cursor.skip).push .dash)

/-- The question mark before a key. -/
def takeKeyMark (s : Scan) : Option Scan := do
  if !s.inFlow && !s.keyAllowed then none
  else do
    let s := s.roll s.cursor.column s.tokens.length .blockMapStart
    let s ← s.dropKey
    pure (((s.allow (!s.inFlow)).moveTo s.cursor.skip).push .key)

/-- The colon after a key. If a key may have started before, that is the key. -/
def takeColon (s : Scan) : Option Scan :=
  match s.keyStarts with
  | some k :: rest =>
    let s := { s with tokens := s.tokens.insertIdx k.position .key, keyStarts := none :: rest }
    let s := s.roll k.column k.position .blockMapStart
    some (((s.allow false).moveTo s.cursor.skip).push .value)
  | _ =>
    if !s.inFlow && !s.keyAllowed then none
    else
      let s := s.roll s.cursor.column s.tokens.length .blockMapStart
      some (((s.allow (!s.inFlow)).moveTo s.cursor.skip).push .value)

/-- An anchor or an alias. -/
def takeAnchor (s : Scan) (token : List Char → Token) : Option Scan := do
  let s ← s.saveKey
  let (name, c) ← readAnchorName s.cursor
  pure (((s.allow false).moveTo c).push (token name))

/-- A tag. -/
def takeTag (s : Scan) : Option Scan := do
  let s ← s.saveKey
  let (t, c) ← readTag s.inFlow s.cursor
  pure (((s.allow false).moveTo c).push t)

/-- A block scalar. -/
def takeBlock (s : Scan) (style : Style) : Option Scan := do
  let s ← s.dropKey
  let r ← readBlock (style == .folded) s.indent s.cursor
  pure (((s.allow true).moveTo r.after).push (.scalar style r.text))

/-- A quoted scalar. -/
def takeQuoted (s : Scan) (style : Style) : Option Scan := do
  let s ← s.saveKey
  let r ← readQuoted (style == .single) s.cursor
  pure (((s.allow false).moveTo r.after).push (.scalar style r.text))

/-- A plain scalar. -/
def takePlain (s : Scan) : Option Scan := do
  let s ← s.saveKey
  let r ← readPlain s.inFlow (s.indent + 1) s.cursor
  pure (((s.allow r.broken).moveTo r.after).push (.scalar .plain r.text))

/-- Characters that start no plain scalar. -/
def isIndicator (c : Char) : Bool :=
  "-?:,[]\x7b\x7d#&*!|>'\"%@\x60".toList.contains c

/-- Whether a plain scalar may start with `x` here. -/
def startsPlain (s : Scan) (x : Char) : Bool :=
  !(isGap x || isBreak x || isIndicator x) ||
    (x == '-' && !(s.cursor.peek 1).any isGap) ||
    (!s.inFlow && (x == '?' || x == ':') && !s.cursor.blankAt 1)

/-- One more token, or several; the text does not end here. -/
def takeToken (s : Scan) (x : Char) : Option Scan :=
  let c := s.cursor
  if c.column = 0 ∧ x = '%' then s.takeDirective
  else if c.atMark '-' then s.takeDocumentMark .documentStart
  else if c.atMark '.' then s.takeDocumentMark .documentEnd
  else if x = '[' then s.takeOpen .openList
  else if x = '\x7b' then s.takeOpen .openMap
  else if x = ']' then s.takeClose .closeList
  else if x = '\x7d' then s.takeClose .closeMap
  else if x = ',' then s.takeComma
  else if x = '-' ∧ c.blankAt 1 then s.takeDash
  else if x = '?' ∧ (s.inFlow ∨ c.blankAt 1) then s.takeKeyMark
  else if x = ':' ∧ (s.inFlow ∨ c.blankAt 1) then s.takeColon
  else if x = '*' then s.takeAnchor .alias
  else if x = '&' then s.takeAnchor .anchor
  else if x = '!' then s.takeTag
  else if x = '|' ∧ s.inFlow = false then s.takeBlock .literal
  else if x = '>' ∧ s.inFlow = false then s.takeBlock .folded
  else if x = '\'' then s.takeQuoted .single
  else if x = '"' then s.takeQuoted .double
  else if s.startsPlain x then s.takePlain
  else none

/-- All tokens. Every round takes at least one character. -/
def runWithin : Nat → Scan → Option (List Token)
  | 0, _ => none
  | fuel + 1, s => do
    let s ← s.skipBlanks.dropStaleKeys
    let s := s.unroll s.cursor.column
    match s.cursor.peek 0 with
    | none => do
      let s ← s.endStream
      pure s.tokens
    | some x => do
      let s ← s.takeToken x
      runWithin fuel s

end Scan

/-- The tokens of a text. -/
def tokens? (text : List Char) : Option (List Token) :=
  if text.all isAllowed then Scan.runWithin (text.length + 1) (Scan.start text) else none

end ScriptRunner.Yaml

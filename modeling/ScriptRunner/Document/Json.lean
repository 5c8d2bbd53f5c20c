import ScriptRunner.Document.Basic
import ScriptRunner.Text.Blank

/-!
# ScriptRunner.Document.Json

Reading JSON.

A text is cut into tokens, and the tokens are read by a machine with a stack of the lists
and maps that are open. What a document holds is not judged here: a number beyond the
range of a double, and a string with half a surrogate pair, are good JSON, and unusable
as values.
-/

namespace ScriptRunner.Json

/-! ## Tokens -/

/-- A token of JSON. -/
inductive Token
  | openMap
  | closeMap
  | openList
  | closeList
  | colon
  | comma
  | string (value : Document)
  /-- A number or a constant. -/
  | scalar (value : Document)

/-- White space between tokens. -/
def isSpace (c : Char) : Bool :=
  c == ' ' || c == '\t' || c == '\n' || c == '\r'

/-- The value of a hexadecimal digit. -/
def hexValue? (c : Char) : Option Nat :=
  if '0' ≤ c ∧ c ≤ '9' then some (c.toNat - '0'.toNat)
  else if 'a' ≤ c ∧ c ≤ 'f' then some (c.toNat - 'a'.toNat + 10)
  else if 'A' ≤ c ∧ c ≤ 'F' then some (c.toNat - 'A'.toNat + 10)
  else none

/-- The value of four hexadecimal digits. -/
def hex4? (a b c d : Char) : Option Nat := do
  let a ← hexValue? a
  let b ← hexValue? b
  let c ← hexValue? c
  let d ← hexValue? d
  pure (((a * 16 + b) * 16 + c) * 16 + d)

/-- The character of an escape with one letter. -/
def escape? (c : Char) : Option Char :=
  if c = '"' ∨ c = '\\' ∨ c = '/' then some c
  else if c = 'b' then some '\x08'
  else if c = 'f' then some '\x0c'
  else if c = 'n' then some '\n'
  else if c = 'r' then some '\r'
  else if c = 't' then some '\t'
  else none

/-- The code units of a string up to its closing quote, and the text after it. A
character outside the escapes is its own code point. -/
def stringUnits : List Char → Option (List Nat × List Char)
  | [] => none
  | '"' :: rest => some ([], rest)
  | '\\' :: 'u' :: a :: b :: c :: d :: rest => do
    let unit ← hex4? a b c d
    let (units, after) ← stringUnits rest
    pure (unit :: units, after)
  | '\\' :: e :: rest => do
    let char ← escape? e
    let (units, after) ← stringUnits rest
    pure (char.toNat :: units, after)
  | c :: rest =>
    if c.toNat < 32 ∨ c = '\\' then none
    else do
      let (units, after) ← stringUnits rest
      pure (c.toNat :: units, after)

/-- The first half of a surrogate pair. -/
def isHighSurrogate (unit : Nat) : Bool := 0xD800 ≤ unit && unit ≤ 0xDBFF

/-- The second half of a surrogate pair. -/
def isLowSurrogate (unit : Nat) : Bool := 0xDC00 ≤ unit && unit ≤ 0xDFFF

/-- The characters of code units; `none` where half a surrogate pair stands alone. -/
def unitsText? : List Nat → Option (List Char)
  | [] => some []
  | u :: rest =>
    if isHighSurrogate u then
      match rest with
      | v :: rest' =>
        if isLowSurrogate v then
          (unitsText? rest').map (Char.ofNat (0x10000 + (u - 0xD800) * 1024 + (v - 0xDC00)) :: ·)
        else none
      | [] => none
    else if isLowSurrogate u then none
    else (unitsText? rest).map (Char.ofNat u :: ·)

/-- The string of code units as a document. -/
def stringOf (units : List Nat) : Document :=
  match unitsText? units with
  | some text => Document.text (String.ofList text)
  | none => .scalar none .unusable

/-! ### Numbers -/

/-- A digit. -/
def isDigit (c : Char) : Bool := isAsciiDigit c

/-- The value of decimal digits. -/
def digitsValue (digits : List Char) : Nat :=
  digits.foldl (fun n c => n * 10 + (c.toNat - '0'.toNat)) 0

/-- Digits at the start of a text, at least one. -/
def digits1? (text : List Char) : Option (List Char × List Char) :=
  match text.takeWhile isDigit with
  | [] => none
  | digits => some (digits, text.dropWhile isDigit)

/-- A number as it is written. -/
structure Numeral where
  negative : Bool
  whole : List Char
  fraction : Option (List Char)
  exponent : Option (Bool × List Char)

/-- The whole digits of a number: a zero alone, or digits that do not start with one. -/
def whole? (text : List Char) : Option (List Char × List Char) :=
  match digits1? text with
  | some ('0' :: _ :: _, _) => none
  | other => other

/-- The part of a number after its point, if there is a point. -/
def fraction? : List Char → Option (Option (List Char) × List Char)
  | '.' :: rest => (digits1? rest).map (fun r => (some r.1, r.2))
  | text => some (none, text)

/-- The exponent of a number, if there is one; the flag says that it is negative. -/
def exponent? : List Char → Option (Option (Bool × List Char) × List Char)
  | c :: rest =>
    if c = 'e' ∨ c = 'E' then
      match rest with
      | '-' :: rest' => (digits1? rest').map (fun r => (some (true, r.1), r.2))
      | '+' :: rest' => (digits1? rest').map (fun r => (some (false, r.1), r.2))
      | _ => (digits1? rest).map (fun r => (some (false, r.1), r.2))
    else some (none, c :: rest)
  | [] => some (none, [])

/-- A number at the start of a text, and the text after it. -/
def numeral? (text : List Char) : Option (Numeral × List Char) := do
  let (negative, unsigned) :=
    match text with
    | '-' :: rest => (true, rest)
    | _ => (false, text)
  let (whole, afterWhole) ← whole? unsigned
  let (fraction, afterFraction) ← fraction? afterWhole
  let (exponent, rest) ← exponent? afterFraction
  pure (⟨negative, whole, fraction, exponent⟩, rest)

/-- The least natural number that a double cannot hold because it is too large, the
nearest double being infinite. -/
def doubleLimit : Nat := 1 <<< 1024 - 1 <<< 970

/-- Whether `mantissa * 10 ^ exponent` is beyond the doubles. Sizes that are far away from
the limit are decided by the number of digits. -/
def beyondDouble (mantissa : Nat) (exponent : Int) : Bool :=
  if mantissa = 0 then false
  else
    let size := (Nat.toDigits 10 mantissa).length + exponent
    if size < 300 then false
    else if 400 < size then true
    else if 0 ≤ exponent then decide (doubleLimit ≤ mantissa * Nat.pow 10 exponent.toNat)
    else decide (doubleLimit * Nat.pow 10 (-exponent).toNat ≤ mantissa)

/-- Whether a number is beyond the doubles. -/
def Numeral.beyond (n : Numeral) : Bool :=
  let fraction := n.fraction.getD []
  let exponent : Int :=
    match n.exponent with
    | some (true, digits) => -(digitsValue digits : Int)
    | some (false, digits) => digitsValue digits
    | none => 0
  beyondDouble (digitsValue (n.whole ++ fraction)) (exponent - fraction.length)

/-- A number as a document. -/
def Numeral.toDocument (n : Numeral) : Document :=
  if n.beyond then .scalar none .unusable
  else if n.negative || n.fraction.isSome || n.exponent.isSome then .scalar none .number
  else
    let value := digitsValue n.whole
    .scalar none (if value < 1 <<< 64 then .natural value else .number)

/-! ### All tokens -/

/-- The text after `word`, if it starts with it. -/
def after? (word text : List Char) : Option (List Char) :=
  match word, text with
  | [], _ => some text
  | w :: word', c :: text' => if w = c then after? word' text' else none
  | _ :: _, [] => none

/-- The constant that starts with a letter, and the text after it. -/
def constant? (text : List Char) : Option (Document × List Char) :=
  match after? "null".toList text with
  | some rest => some (.scalar none .null, rest)
  | none =>
    match after? "true".toList text with
    | some rest => some (.scalar none (.boolean true), rest)
    | none => (after? "false".toList text).map (fun rest => (.scalar none (.boolean false), rest))

/-- The first token of a text that does not start with white space, and what follows. -/
def token? (text : List Char) : Option (Token × List Char) :=
  match text with
  | [] => none
  | '\x7b' :: rest => some (.openMap, rest)
  | '\x7d' :: rest => some (.closeMap, rest)
  | '[' :: rest => some (.openList, rest)
  | ']' :: rest => some (.closeList, rest)
  | ':' :: rest => some (.colon, rest)
  | ',' :: rest => some (.comma, rest)
  | '"' :: rest => (stringUnits rest).map (fun r => (.string (stringOf r.1), r.2))
  | c :: _ =>
    if c = '-' ∨ isDigit c then
      (numeral? text).map (fun r => (.scalar r.1.toDocument, r.2))
    else (constant? text).map (fun r => (.scalar r.1, r.2))

/-- The tokens of a text. Every token takes at least one character, so `fuel` is the
length of the text. -/
def tokensWithin? : Nat → List Char → Option (List Token)
  | 0, text => if (text.dropWhile isSpace).isEmpty then some [] else none
  | fuel + 1, text =>
    match text.dropWhile isSpace with
    | [] => some []
    | c :: rest => do
      let (token, after) ← token? (c :: rest)
      let others ← tokensWithin? fuel after
      pure (token :: others)

/-- The tokens of a text. -/
def tokens? (text : List Char) : Option (List Token) :=
  tokensWithin? text.length text

/-! ## The machine -/

/-- A list or map that is open, with what it holds so far. -/
inductive Frame
  | items (done : List Document)
  /-- A map, the key of its next entry being read or known. -/
  | members (done : List (Document × Document)) (key : Option Document)

/-- What may come next. -/
inductive Expected
  | value
  /-- A value, or the end of the list just opened. -/
  | valueOrEnd
  | key
  /-- A key, or the end of the map just opened. -/
  | keyOrEnd
  | colon
  | commaOrEnd
  /-- Nothing more. -/
  | finished

/-- The state of the machine. -/
structure Machine where
  frames : List Frame
  expected : Expected
  result : Option Document

namespace Machine

/-- Before the first token. -/
def start : Machine := ⟨[], .value, none⟩

/-- A value is complete: it goes into the innermost open list or map. -/
def complete (frames : List Frame) (d : Document) : Option Machine :=
  match frames with
  | [] => some ⟨[], .finished, some d⟩
  | .items done :: rest => some ⟨.items (done ++ [d]) :: rest, .commaOrEnd, none⟩
  | .members done (some key) :: rest =>
    some ⟨.members (done ++ [(key, d)]) none :: rest, .commaOrEnd, none⟩
  | .members _ none :: _ => none

/-- A token where a value is expected. -/
def stepValue (frames : List Frame) : Token → Option Machine
  | .openMap => some ⟨.members [] none :: frames, .keyOrEnd, none⟩
  | .openList => some ⟨.items [] :: frames, .valueOrEnd, none⟩
  | .string d => complete frames d
  | .scalar d => complete frames d
  | _ => none

/-- A token where the key of a map is expected. -/
def stepKey (frames : List Frame) : Token → Option Machine
  | .string d =>
    match frames with
    | .members done none :: rest => some ⟨.members done (some d) :: rest, .colon, none⟩
    | _ => none
  | _ => none

/-- The innermost open list or map ends. -/
def close (frames : List Frame) : Token → Option Machine
  | .closeMap =>
    match frames with
    | .members done none :: rest => complete rest (.map done)
    | _ => none
  | .closeList =>
    match frames with
    | .items done :: rest => complete rest (.list done)
    | _ => none
  | _ => none

/-- One more token. -/
def step (m : Machine) (t : Token) : Option Machine :=
  match m.expected with
  | .value => stepValue m.frames t
  | .valueOrEnd => (close m.frames t).or (stepValue m.frames t)
  | .key => stepKey m.frames t
  | .keyOrEnd => (close m.frames t).or (stepKey m.frames t)
  | .colon =>
    match t with
    | .colon => some ⟨m.frames, .value, none⟩
    | _ => none
  | .commaOrEnd =>
    match t with
    | .comma =>
      match m.frames with
      | .items _ :: _ => some ⟨m.frames, .value, none⟩
      | .members _ _ :: _ => some ⟨m.frames, .key, none⟩
      | [] => none
    | other => close m.frames other
  | .finished => none

/-- All tokens, one after the other. -/
def run (m : Machine) : List Token → Option Machine
  | [] => some m
  | t :: rest => do
    let next ← m.step t
    next.run rest

end Machine

/-- The document of a JSON text. -/
def parse? (text : List Char) : Option Document := do
  let tokens ← tokens? text
  let m ← Machine.start.run tokens
  m.result

end ScriptRunner.Json

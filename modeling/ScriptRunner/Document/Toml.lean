import ScriptRunner.Document.Basic
import ScriptRunner.Document.Json

/-!
# ScriptRunner.Document.Toml

Reading TOML.

A text is read line by line into *lines of meaning*: a key with its value, or the header
of a table (`Toml.Line`). `Toml.build` then puts them together. A table comes into being
in one of three ways, and what may be added to it later depends on that (`Origin`): by a
header of its own, on the way to the table of a longer header, or by a dotted key.

A date or time is a map with one key, as those who know nothing of dates see it.
-/

namespace ScriptRunner.Toml

/-- A reader: from a text to a result and the rest of the text. -/
abbrev Reader (α : Type) := List Char → Option (α × List Char)

/-! ## Characters -/

/-- A blank within a line. -/
def isSpace (c : Char) : Bool := c == ' ' || c == '\t'

/-- Characters of a comment: all but control characters, the tab excepted. -/
def isPrintable (c : Char) : Bool := c == '\t' || (32 ≤ c.toNat && c.toNat != 127)

/-- Characters of a key without quotes. -/
def isBareKeyChar (c : Char) : Bool :=
  isAsciiLetter c || isAsciiDigit c || c == '_' || c == '-'

/-- The text after blanks. -/
def skipSpace (text : List Char) : List Char := text.dropWhile isSpace

/-- The text after a line break, if it starts with one. -/
def lineBreak? : List Char → Option (List Char)
  | '\n' :: rest => some rest
  | _ => none

/-- The text after blanks, a comment and the end of the line. -/
def lineEnd? (text : List Char) : Option (List Char) :=
  let afterComment :=
    match skipSpace text with
    | '#' :: rest => rest.dropWhile isPrintable
    | other => other
  match afterComment with
  | [] => some []
  | other => lineBreak? other

/-- The text after blanks, comments and line breaks, which stand between the items of a
list. -/
def skipBlankWithin : Nat → List Char → Option (List Char)
  | 0, text => some text
  | fuel + 1, text =>
    match skipSpace text with
    | '#' :: rest => do
      let after ← lineBreak? (rest.dropWhile isPrintable)
      skipBlankWithin fuel after
    | other =>
      match lineBreak? other with
      | some rest => skipBlankWithin fuel rest
      | none => some other

/-- `skipBlankWithin` with as many steps as there can be. -/
def skipBlank (text : List Char) : Option (List Char) := skipBlankWithin text.length text

/-! ## Strings -/

/-- The value of hexadecimal digits. -/
def hexNumber? (digits : List Char) : Option Nat :=
  digits.foldlM (fun n c => (Json.hexValue? c).map (n * 16 + ·)) 0

/-- The character of a number, if it has one. -/
def scalarValue? (n : Nat) : Option Char :=
  if h : n.isValidChar then some (Char.ofNatAux n h) else none

/-- The character of an escape and the text after it; the text starts after the
backslash. -/
def escape? : Reader Char
  | 'b' :: rest => some ('\x08', rest)
  | 't' :: rest => some ('\t', rest)
  | 'n' :: rest => some ('\n', rest)
  | 'f' :: rest => some ('\x0c', rest)
  | 'r' :: rest => some ('\r', rest)
  | '"' :: rest => some ('"', rest)
  | '\\' :: rest => some ('\\', rest)
  | 'u' :: rest =>
    if rest.length < 4 then none
    else do
      let c ← scalarValue? (← hexNumber? (rest.take 4))
      pure (c, rest.drop 4)
  | 'U' :: rest =>
    if rest.length < 8 then none
    else do
      let c ← scalarValue? (← hexNumber? (rest.take 8))
      pure (c, rest.drop 8)
  | _ => none

/-- The rest of a string between double quotes on one line. -/
def basicWithin : Nat → Reader (List Char)
  | 0, _ => none
  | fuel + 1, text =>
    match text with
    | '"' :: rest => some ([], rest)
    | '\\' :: rest => do
      let (c, after) ← escape? rest
      let (cs, final) ← basicWithin fuel after
      pure (c :: cs, final)
    | c :: rest =>
      if isPrintable c then do
        let (cs, final) ← basicWithin fuel rest
        pure (c :: cs, final)
      else none
    | [] => none

/-- The rest of a string between single quotes on one line. -/
def literal? : Reader (List Char)
  | '\'' :: rest => some ([], rest)
  | c :: rest =>
    if isPrintable c then do
      let (cs, final) ← literal? rest
      pure (c :: cs, final)
    else none
  | [] => none

/-- The text after the blanks and line breaks that an escaped line break swallows; the
text starts after the backslash. -/
def afterEscapedBreak? (text : List Char) : Option (List Char) := do
  let rest ← lineBreak? (skipSpace text)
  pure (rest.dropWhile (fun c => isSpace c || c == '\n'))

/-- The end of a string over several lines that ends with three of `quote`: of a run of
quotes the last three close the string, and at most two stand for themselves before. -/
def closing? (quote : Char) (text : List Char) : Option (List Char × List Char) :=
  let run := text.takeWhile (· == quote)
  if run.length < 3 then none
  else some (List.replicate (min (run.length - 3) 2) quote, text.drop (3 + min (run.length - 3) 2))

/-- The rest of a string over several lines between double quotes. -/
def longBasicWithin : Nat → Reader (List Char)
  | 0, _ => none
  | fuel + 1, text =>
    match text with
    | [] => none
    | '\\' :: rest =>
      match afterEscapedBreak? rest with
      | some after => longBasicWithin fuel after
      | none => do
        let (c, after) ← escape? rest
        let (cs, final) ← longBasicWithin fuel after
        pure (c :: cs, final)
    | c :: rest =>
      if c = '"' then
        match closing? '"' text with
        | some r => some r
        | none => do
          let (cs, final) ← longBasicWithin fuel rest
          pure (c :: cs, final)
      else if isPrintable c ∨ c = '\n' then do
        let (cs, final) ← longBasicWithin fuel rest
        pure (c :: cs, final)
      else none

/-- The rest of a string over several lines between single quotes. -/
def longLiteralWithin : Nat → Reader (List Char)
  | 0, _ => none
  | fuel + 1, text =>
    match text with
    | [] => none
    | c :: rest =>
      if c = '\'' then
        match closing? '\'' text with
        | some r => some r
        | none => do
          let (cs, final) ← longLiteralWithin fuel rest
          pure (c :: cs, final)
      else if isPrintable c ∨ c = '\n' then do
        let (cs, final) ← longLiteralWithin fuel rest
        pure (c :: cs, final)
      else none

/-- The text after a line break right at the start of a string over several lines. -/
def dropFirstBreak (text : List Char) : List Char :=
  match text with
  | '\n' :: rest => rest
  | _ => text

/-- A string on one line. -/
def shortString? : Reader (List Char)
  | '"' :: rest => basicWithin (rest.length + 1) rest
  | '\'' :: rest => literal? rest
  | _ => none

/-- A string. -/
def string? (text : List Char) : Option (List Char × List Char) :=
  match text with
  | '"' :: '"' :: '"' :: rest => longBasicWithin (rest.length + 1) (dropFirstBreak rest)
  | '\'' :: '\'' :: '\'' :: rest => longLiteralWithin (rest.length + 1) (dropFirstBreak rest)
  | _ => shortString? text

/-! ## Numbers -/

/-- Digits of one kind at the start of a text, at least one. An underscore may stand
between two of them, and nowhere else. -/
def digitRun? (isDigit : Char → Bool) : Reader (List Char)
  | [] => none
  | c :: rest =>
    if isDigit c then
      match rest with
      | '_' :: rest' => (digitRun? isDigit rest').map (fun r => (c :: r.1, r.2))
      | d :: rest' =>
        if isDigit d then (digitRun? isDigit (d :: rest')).map (fun r => (c :: r.1, r.2))
        else some ([c], d :: rest')
      | [] => some ([c], [])
    else none

/-- A sign, if there is one; the flag says that it is a minus. -/
def sign : List Char → Bool × List Char
  | '-' :: rest => (true, rest)
  | '+' :: rest => (false, rest)
  | text => (false, text)

/-- The digits of a decimal whole number: a zero alone, or digits that start with another
one. -/
def decimal? : Reader (List Char)
  | '0' :: rest => some (['0'], rest)
  | text => digitRun? isAsciiDigit text

/-- The value of digits. -/
def digitsIn (base : Nat) (digits : List Char) : Nat :=
  digits.foldl (fun n c => n * base + (Json.hexValue? c).getD 0) 0

/-- The greatest whole number. -/
def integerLimit : Nat := 1 <<< 63

/-- A whole number as a document, if it is within bounds. -/
def integerOf? (negative : Bool) (value : Nat) : Option Document :=
  if negative then
    if value ≤ integerLimit then
      some (.scalar none (if value = 0 then .natural 0 else .number))
    else none
  else if value < integerLimit then some (.scalar none (.natural value))
  else none

/-- A whole number with these digits after its mark. -/
def marked? (base : Nat) (isDigit : Char → Bool) (text : List Char) :
    Option (Document × List Char) := do
  let (digits, rest) ← digitRun? isDigit text
  let d ← integerOf? false (digitsIn base digits)
  pure (d, rest)

/-- A whole number. -/
def integer? (text : List Char) : Option (Document × List Char) :=
  match text with
  | '0' :: 'x' :: rest => marked? 16 (fun c => (Json.hexValue? c).isSome) rest
  | '0' :: 'o' :: rest => marked? 8 (fun c => '0' ≤ c && c ≤ '7') rest
  | '0' :: 'b' :: rest => marked? 2 (fun c => c == '0' || c == '1') rest
  | _ => do
    let (negative, unsigned) := sign text
    let (digits, rest) ← decimal? unsigned
    let d ← integerOf? negative (digitsIn 10 digits)
    pure (d, rest)

/-- The exponent of a number. -/
def exponent? : Reader (Bool × List Char)
  | c :: rest =>
    if c = 'e' ∨ c = 'E' then
      let (negative, unsigned) := sign rest
      (digitRun? isAsciiDigit unsigned).map (fun r => ((negative, r.1), r.2))
    else none
  | [] => none

/-- The part of a number after its point. -/
def fraction? : Reader (List Char)
  | '.' :: rest => digitRun? isAsciiDigit rest
  | _ => none

/-- A number with a point or an exponent. A positive one beyond the doubles is none. -/
def float? (text : List Char) : Option (Document × List Char) := do
  let (negative, unsigned) := sign text
  let (whole, afterWhole) ← decimal? unsigned
  let (fraction, afterFraction) :=
    match fraction? afterWhole with
    | some r => (some r.1, r.2)
    | none => (none, afterWhole)
  let (exponent, rest) :=
    match exponent? afterFraction with
    | some r => (some r.1, r.2)
    | none => (none, afterFraction)
  if fraction.isNone && exponent.isNone then none
  else
    let numeral : Json.Numeral := ⟨negative, whole, fraction, exponent⟩
    if numeral.beyond && !negative then none else some (.scalar none .number, rest)

/-- Infinity, and what is no number. -/
def special? (text : List Char) : Option (Document × List Char) :=
  let unsigned := (sign text).2
  match Json.after? "inf".toList unsigned with
  | some rest => some (.scalar none .number, rest)
  | none => (Json.after? "nan".toList unsigned).map (fun rest => (.scalar none .number, rest))

/-! ## Dates and times -/

/-- A number with exactly `count` digits, within bounds. -/
def fixed? (count low high : Nat) (text : List Char) : Option (Nat × List Char) :=
  let digits := text.take count
  if digits.length = count ∧ digits.all isAsciiDigit then
    let value := digitsIn 10 digits
    if low ≤ value ∧ value ≤ high then some (value, text.drop count) else none
  else none

/-- The text after one character. -/
def expect? (c : Char) : List Char → Option (List Char)
  | d :: rest => if c = d then some rest else none
  | [] => none

/-- A number with at least `width` digits. -/
def padded (width n : Nat) : String :=
  let digits := (Nat.toDigits 10 n)
  String.ofList (List.replicate (width - digits.length) '0' ++ digits)

/-- The number of days of a month. -/
def daysOf (year month : Nat) : Nat :=
  if month = 2 then
    if year % 4 = 0 ∧ (year % 100 ≠ 0 ∨ year % 400 = 0) then 29 else 28
  else if month = 4 ∨ month = 6 ∨ month = 9 ∨ month = 11 then 30
  else 31

/-- A date, as it is written. -/
def date? (text : List Char) : Option (String × List Char) := do
  let (year, afterYear) ← fixed? 4 0 9999 text
  let (month, afterMonth) ← fixed? 2 1 12 (← expect? '-' afterYear)
  let (day, rest) ← fixed? 2 1 31 (← expect? '-' afterMonth)
  if day ≤ daysOf year month then
    pure (padded 4 year ++ "-" ++ padded 2 month ++ "-" ++ padded 2 day, rest)
  else none

/-- The part of a second, without its last zeros and with at most nine digits. -/
def secondPart (digits : List Char) : String :=
  match Text.dropEndWhile (· == '0') (digits.take 9) with
  | [] => ""
  | kept => String.ofList ('.' :: kept)

/-- A time of day, as it is written. -/
def time? (text : List Char) : Option (String × List Char) := do
  let (hour, afterHour) ← fixed? 2 0 23 text
  let (minute, afterMinute) ← fixed? 2 0 59 (← expect? ':' afterHour)
  let (second, afterSecond) ← fixed? 2 0 60 (← expect? ':' afterMinute)
  let clock := padded 2 hour ++ ":" ++ padded 2 minute ++ ":" ++ padded 2 second
  match afterSecond with
  | '.' :: rest =>
    match rest.takeWhile isAsciiDigit with
    | [] => pure (clock, afterSecond)
    | digits => pure (clock ++ secondPart digits, rest.dropWhile isAsciiDigit)
  | _ => pure (clock, afterSecond)

/-- The distance of a clock from the one that all others are compared with. -/
def offset? : Reader String
  | c :: rest =>
    if c = 'Z' ∨ c = 'z' then some ("Z", rest)
    else if c = '+' ∨ c = '-' then do
      let (hour, afterHour) ← fixed? 2 0 23 rest
      let (minute, after) ← fixed? 2 0 59 (← expect? ':' afterHour)
      let mark := if c = '-' ∧ hour + minute ≠ 0 then "-" else "+"
      pure (mark ++ padded 2 hour ++ ":" ++ padded 2 minute, after)
    else none
  | [] => none

/-- The key under which a date or time is seen. -/
def dateKey : String := "$__toml_private_datetime"

/-- A date or time as a document. -/
def dateDocument (written : String) : Document := .map [(.text dateKey, .text written)]

/-- A date with a time, a date, or a time. -/
def dateTime? (text : List Char) : Option (Document × List Char) :=
  match date? text with
  | some (date, rest) =>
    let withTime : Option (String × List Char) := do
      let (c, afterMark) ← rest.head?.map (fun c => (c, rest.tail))
      if c = 'T' ∨ c = 't' ∨ c = ' ' then
        let (time, afterTime) ← time? afterMark
        match offset? afterTime with
        | some (offset, final) => some (time ++ offset, final)
        | none => some (time, afterTime)
      else none
    match withTime with
    | some (time, final) => some (dateDocument (date ++ "T" ++ time), final)
    | none => some (dateDocument date, rest)
  | none => (time? text).map (fun r => (dateDocument r.1, r.2))

/-- A number, date or time. -/
def numeric? (text : List Char) : Option (Document × List Char) :=
  ((dateTime? text).or ((float? text).or (special? text))).or (integer? text)

/-! ## Keys -/

/-- A key without dots. -/
def simpleKey? (text : List Char) : Option (String × List Char) :=
  match text with
  | c :: _ =>
    if c = '"' ∨ c = '\'' then (shortString? text).map (fun r => (String.ofList r.1, r.2))
    else
      match text.takeWhile isBareKeyChar with
      | [] => none
      | letters => some (String.ofList letters, text.dropWhile isBareKeyChar)
  | [] => none

/-- A key, by its parts between dots. -/
def keyWithin : Nat → Reader (List String)
  | 0, _ => none
  | fuel + 1, text => do
    let (part, after) ← simpleKey? (skipSpace text)
    match skipSpace after with
    | '.' :: rest => do
      let (parts, final) ← keyWithin fuel rest
      pure (part :: parts, final)
    | rest => pure ([part], rest)

/-- The number of levels that a document may have, and a key parts. -/
def levelLimit : Nat := 80

/-- A key, by its parts between dots. -/
def key? (text : List Char) : Option (List String × List Char) := do
  let (parts, rest) ← keyWithin (text.length + 1) text
  if parts.length < levelLimit then pure (parts, rest) else none

/-! ## Tables -/

/-- How a table came into being. -/
inductive Origin
  /-- By its own header; it is complete. -/
  | header
  /-- On the way to the table of a longer header. -/
  | implied
  /-- By a dotted key. -/
  | dotted
  deriving DecidableEq, Repr

/-- What a key of a table stands for. -/
inductive Node
  | value (d : Document)
  | table (origin : Origin) (entries : List (String × Node))
  /-- A list of tables with headers. -/
  | tables (items : List (List (String × Node)))

namespace Node

mutual

/-- A node as a document. -/
def toDocument : Node → Document
  | value d => d
  | table _ entries => .map (entriesToDocument entries)
  | tables items => .list (itemsToDocument items)

/-- The entries of a table as those of a map. -/
def entriesToDocument : List (String × Node) → List (Document × Document)
  | [] => []
  | (k, n) :: rest => (.text k, n.toDocument) :: entriesToDocument rest

/-- Tables as maps. -/
def itemsToDocument : List (List (String × Node)) → List Document
  | [] => []
  | t :: rest => .map (entriesToDocument t) :: itemsToDocument rest

end

end Node

/-- The entries of a table. -/
abbrev Entries := List (String × Node)

/-- The entry of a key. -/
def find? (key : String) (entries : Entries) : Option Node :=
  (entries.find? (fun e => e.1 == key)).map Prod.snd

/-- The entries with another node for a key that they have, or with the key at the end. -/
def put (key : String) (node : Node) : Entries → Entries
  | [] => [(key, node)]
  | (k, n) :: rest => if k = key then (k, node) :: rest else (k, n) :: put key node rest

/-- The last of several tables changed. -/
def changeLast (f : Entries → Option Entries) : List Entries → Option (List Entries)
  | [] => none
  | [t] => (f t).map (fun t' => [t'])
  | t :: rest => (changeLast f rest).map (t :: ·)

/-- Changes the table at the end of a path, and makes the tables on the way that are
missing. `dotted` says that the path is that of a dotted key: it may not lead into a table
with a header of its own. The change is told how its table came into being. -/
def change (dotted : Bool) (f : Origin → Entries → Option Entries) :
    List String → Origin → Entries → Option Entries
  | [], origin, entries => f origin entries
  | key :: path, _, entries => do
    let fresh := if dotted then Origin.dotted else Origin.implied
    let node ←
      match find? key entries with
      | none => (change dotted f path fresh []).map (Node.table fresh)
      | some (.value _) => none
      | some (.tables items) => (changeLast (change dotted f path .header) items).map Node.tables
      | some (.table origin inner) =>
        if dotted ∧ origin = .header then none
        else (change dotted f path origin inner).map (Node.table origin)
    pure (put key node entries)

/-- Adds a key with its value to a table. A dotted key may not add to a table that a
header made or implied, and no key may be there already. -/
def addValue (entries : Entries) (path : List String) (value : Node) : Option Entries :=
  match path.reverse with
  | [] => none
  | key :: reversed =>
    let way := reversed.reverse
    change true (fun origin inner =>
      if (way.isEmpty ∨ origin = .dotted) ∧ (find? key inner).isNone then
        some (inner ++ [(key, value)])
      else none) way .header entries

/-- The table of a header, without the entries that follow the header: those that are
implied already, or none. A table that is there for another reason is an error. -/
def openTable (key : String) (entries : Entries) : Option (Entries × Entries) :=
  match find? key entries with
  | none => some ([], entries)
  | some (.table .implied inner) => some (inner, entries.filter (fun e => e.1 != key))
  | some _ => none

/-! ## Values -/

/-- A sequence of items between commas up to a closing character. A comma may stand before
the closing one. Line breaks and comments are blanks. -/
def itemsWithin (item : Reader Document) : Nat → Reader (List Document)
  | 0, _ => none
  | fuel + 1, text => do
    let start ← skipBlank text
    match start with
    | ']' :: rest => pure ([], rest)
    | _ => do
      let (d, afterItem) ← item start
      match ← skipBlank afterItem with
      | ',' :: rest => do
        let (ds, final) ← itemsWithin item fuel rest
        pure (d :: ds, final)
      | ']' :: rest => pure ([d], rest)
      | _ => none

/-- The entries of a table between braces, with at least one still to come. They stand on
one line. -/
def inlineWithin (item : Reader Document) : Nat → Entries → Reader Entries
  | 0, _, _ => none
  | fuel + 1, entries, text => do
    let (path, afterKey) ← key? text
    let start ← expect? '=' afterKey
    let (d, afterItem) ← item (skipSpace start)
    let entries ← addValue entries path (.value d)
    match skipSpace afterItem with
    | ',' :: rest => inlineWithin item fuel entries rest
    | '\x7d' :: rest => pure (entries, rest)
    | _ => none

/-- A table between braces. -/
def inline? (item : Reader Document) (text : List Char) : Option (Document × List Char) :=
  match skipSpace text with
  | '\x7d' :: rest => some (.map [], rest)
  | _ =>
    (inlineWithin item text.length [] text).map (fun r => (.map (Node.entriesToDocument r.1), r.2))

/-- A value whose lists and tables are nested at most `room` deep. -/
def valueWithin : Nat → Reader Document
  | room, text =>
    match text with
    | [] => none
    | c :: rest =>
      if c = '"' ∨ c = '\'' then
        (string? text).map (fun r => (Document.text (String.ofList r.1), r.2))
      else if c = '[' then
        match room with
        | 0 => none
        | room + 1 =>
          (itemsWithin (valueWithin room) text.length rest).map (fun r => (.list r.1, r.2))
      else if c = '\x7b' then
        match room with
        | 0 => none
        | room + 1 => inline? (valueWithin room) rest
      else if c = 't' then
        (Json.after? "true".toList text).map (fun r => (.scalar none (.boolean true), r))
      else if c = 'f' then
        (Json.after? "false".toList text).map (fun r => (.scalar none (.boolean false), r))
      else numeric? text

/-- A value. -/
def value? (text : List Char) : Option (Document × List Char) :=
  valueWithin (levelLimit - 1) text

/-! ## Lines -/

/-- A line that means something. -/
inductive Line
  | entry (path : List String) (value : Document)
  | header (path : List String)
  /-- The header of one more table of a list. -/
  | listHeader (path : List String)

/-- A line that starts with neither a comment nor a line break, and the text after it. -/
def line? (text : List Char) : Option (Line × List Char) :=
  match text with
  | '[' :: '[' :: rest => do
    let (path, afterKey) ← key? rest
    let after ← lineEnd? (← expect? ']' (← expect? ']' afterKey))
    pure (.listHeader path, after)
  | '[' :: rest => do
    let (path, afterKey) ← key? rest
    let after ← lineEnd? (← expect? ']' afterKey)
    pure (.header path, after)
  | _ => do
    let (path, afterKey) ← key? text
    let (d, afterValue) ← value? (skipSpace (← expect? '=' afterKey))
    let after ← lineEnd? afterValue
    pure (.entry path d, after)

/-- The lines of a text. -/
def linesWithin : Nat → List Char → Option (List Line)
  | 0, text => if text.isEmpty then some [] else none
  | fuel + 1, text =>
    match skipSpace text with
    | [] => some []
    | c :: rest =>
      if c = '#' ∨ c = '\n' then do
        let after ← lineEnd? (c :: rest)
        linesWithin fuel after
      else do
        let (line, after) ← line? (c :: rest)
        let others ← linesWithin fuel after
        pure (line :: others)

/-! ## Putting lines together -/

/-- The table whose entries are being read. -/
inductive Target
  | root
  /-- A table with a header. -/
  | table (way : List String) (key : String)
  /-- One more table of a list. -/
  | item (way : List String) (key : String)

/-- A document under construction: what is complete, and the table being read. -/
structure Builder where
  root : Entries
  target : Target
  current : Entries

namespace Builder

/-- Before the first line. -/
def start : Builder := ⟨[], .root, []⟩

/-- One more table at the end of a list of tables. -/
def addItem (key : String) (item : Entries) (entries : Entries) : Option Entries :=
  match find? key entries with
  | some (.tables items) => some (put key (.tables (items ++ [item])) entries)
  | _ => none

/-- The table being read is complete. -/
def finish (b : Builder) : Option Entries :=
  match b.target with
  | .root => some b.current
  | .table way key =>
    change false (fun _ entries => some (entries ++ [(key, .table .header b.current)])) way .header
      b.root
  | .item way key => change false (fun _ entries => addItem key b.current entries) way .header b.root

/-- The place of a list of tables made, if it is not there. -/
def openList (key : String) (entries : Entries) : Option Entries :=
  match find? key entries with
  | none => some (entries ++ [(key, .tables [])])
  | some (.tables _) => some entries
  | some _ => none

/-- The entries of the table at the end of a path. -/
def entriesAt (way : List String) (entries : Entries) : Entries :=
  match way with
  | [] => entries
  | key :: rest =>
    match find? key entries with
    | some (.table _ inner) => entriesAt rest inner
    | some (.tables items) => entriesAt rest (items.getLast?.getD [])
    | _ => []

/-- One more line. -/
def add (b : Builder) : Line → Option Builder
  | .entry path value => do
    let current ← addValue b.current path (.value value)
    pure ⟨b.root, b.target, current⟩
  | .header path => do
    let root ← b.finish
    match path.reverse with
    | [] => none
    | key :: reversed => do
      let way := reversed.reverse
      let opened ← openTable key (entriesAt way root)
      let root ← change false (fun _ entries => (openTable key entries).map Prod.snd) way .header root
      pure ⟨root, .table way key, opened.1⟩
  | .listHeader path => do
    let root ← b.finish
    match path.reverse with
    | [] => none
    | key :: reversed => do
      let way := reversed.reverse
      let root ← change false (fun _ entries => openList key entries) way .header root
      pure ⟨root, .item way key, []⟩

/-- All lines. -/
def addAll (b : Builder) : List Line → Option Builder
  | [] => some b
  | line :: rest => do
    let next ← b.add line
    next.addAll rest

end Builder

/-- The document of lines. -/
def build (lines : List Line) : Option Document := do
  let b ← Builder.start.addAll lines
  let root ← b.finish
  pure (.map (Node.entriesToDocument root))

/-- The text without a mark of its encoding at the start. -/
def dropMark : List Char → List Char
  | '\uFEFF' :: rest => rest
  | text => text

/-- A carriage return before a line feed is a part of the line break, within strings too.
Any other one is not allowed anywhere. -/
def unifyBreaks : List Char → List Char
  | '\r' :: '\n' :: rest => '\n' :: unifyBreaks rest
  | c :: rest => c :: unifyBreaks rest
  | [] => []

/-- The document of a TOML text. -/
def parse? (text : List Char) : Option Document := do
  let plain := unifyBreaks (dropMark text)
  let lines ← linesWithin (plain.length + 1) plain
  build lines

end ScriptRunner.Toml

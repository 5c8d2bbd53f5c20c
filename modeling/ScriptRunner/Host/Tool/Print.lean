import ScriptRunner.Host.Console

/-!
# ScriptRunner.Host.Tool.Print

The programs `echo` and `printf`: backslash escapes, and directives for texts and integers.

A backslash escape is read from the characters after the backslash (`Escape.read`). What it
stands for is bytes, because three octal digits can name any byte.
-/

namespace ScriptRunner

/-- The digit that a character stands for in a base up to sixteen. -/
def digitIn? (base : Nat) (c : Char) : Option Nat :=
  let value :=
    if '0' ≤ c && c ≤ '9' then some (c.toNat - '0'.toNat)
    else if 'a' ≤ c && c ≤ 'f' then some (c.toNat - 'a'.toNat + 10)
    else if 'A' ≤ c && c ≤ 'F' then some (c.toNat - 'A'.toNat + 10)
    else none
  value.filter (· < base)

/-- The number of at most `limit` leading digits, and the rest. -/
def readDigits (base : Nat) : Nat → Nat → List Char → Nat × List Char
  | limit + 1, acc, c :: rest =>
    match digitIn? base c with
    | some d => readDigits base limit (acc * base + d) rest
    | none => (acc, c :: rest)
  | _, acc, rest => (acc, rest)

/-- The number of all leading digits, and the rest. -/
def readNumber (base : Nat) (text : List Char) : Nat × List Char :=
  readDigits base text.length 0 text

/-! ## Escapes -/

namespace Escape

/-- The two styles of naming a byte by octal digits. -/
inductive Style
  /-- At most three digits. -/
  | threeDigits
  /-- At most three digits, and a zero may stand before them. -/
  | zeroFirst
  deriving DecidableEq

/-- The characters with an escape of one letter. -/
def letter? : Char → Option UInt8
  | 'a' => some 7
  | 'b' => some 8
  | 'e' => some 27
  | 'f' => some 12
  | 'n' => some 10
  | 'r' => some 13
  | 't' => some 9
  | 'v' => some 11
  | '\\' => some 92
  | _ => none

/-- The bytes of a character. -/
def bytesOf (c : Char) : Bytes := Utf8.encode (String.singleton c)

/-- The bytes of the escape that stands after a backslash, and the rest. An escape that is
none stands for itself. -/
def read (style : Style) : List Char → Bytes × List Char
  | [] => ([92], [])
  | c :: rest =>
    match letter? c with
    | some byte => ([byte], rest)
    | none =>
      if c = 'x' then
        match rest.head?.bind (digitIn? 16) with
        | some _ =>
          let n := readDigits 16 2 0 rest
          ([UInt8.ofNat n.1], n.2)
        | none => ([92] ++ bytesOf c, rest)
      else if c = '0' ∧ style = .zeroFirst then
        let n := readDigits 8 3 0 rest
        ([UInt8.ofNat n.1], n.2)
      else if (digitIn? 8 c).isSome then
        let n := readDigits 8 3 0 (c :: rest)
        ([UInt8.ofNat n.1], n.2)
      else ([92] ++ bytesOf c, rest)

theorem length_readDigits (base limit acc : Nat) (text : List Char) :
    (readDigits base limit acc text).2.length ≤ text.length := by
  induction limit generalizing acc text with
  | zero => simp [readDigits]
  | succ n ih =>
    cases text with
    | nil => simp [readDigits]
    | cons c rest =>
      simp only [readDigits]
      split
      · exact Nat.le_succ_of_le (ih _ _)
      · simp

theorem length_read (style : Style) (text : List Char) : (read style text).2.length ≤ text.length := by
  cases text with
  | nil => simp [read]
  | cons c rest =>
    simp only [read]
    split
    · simp
    · split
      · split
        · exact Nat.le_succ_of_le (length_readDigits 16 2 0 rest)
        · simp
      · split
        · exact Nat.le_succ_of_le (length_readDigits 8 3 0 rest)
        · split
          · exact length_readDigits 8 3 0 (c :: rest)
          · simp

/-- A text with its escapes read, and whether `\c` ended it. -/
def readAll (style : Style) : List Char → Bytes × Bool
  | [] => ([], false)
  | '\\' :: 'c' :: _ => ([], true)
  | '\\' :: rest =>
    let escape := read style rest
    let more := readAll style escape.2
    (escape.1 ++ more.1, more.2)
  | c :: rest =>
    let more := readAll style rest
    (bytesOf c ++ more.1, more.2)
termination_by text => text.length
decreasing_by
  · have := length_read style rest
    simp only [List.length_cons]
    omega
  · simp

end Escape

/-! ## echo -/

namespace Echo

/-- How to print. -/
structure Options where
  newline : Bool
  escapes : Bool

/-- The options at the start of the arguments. -/
def options (start : Options) : List String → Options × List String
  | [] => (start, [])
  | arg :: rest =>
    match arg.toList with
    | '-' :: c :: cs =>
      if (c :: cs).all ['n', 'e', 'E'].contains then
        options
          ((c :: cs).foldl (fun o flag =>
            if flag = 'n' then { o with newline := false } else { o with escapes := flag == 'e' }) start)
          rest
      else (start, arg :: rest)
    | _ => (start, arg :: rest)

/-- What is printed for words. -/
def output (o : Options) (words : List String) : Bytes :=
  let text := joinBySpace words
  let ending : Bytes := if o.newline then [10] else []
  if o.escapes then
    match Escape.readAll .zeroFirst text.toList with
    | (bytes, true) => bytes
    | (bytes, false) => bytes ++ ending
  else Utf8.encode text ++ ending

/-- The program `echo`. -/
def run (call : Call) : Running Exit := do
  let split := options ⟨true, false⟩ call.args
  Running.emit .output (output split.1 split.2)
  return Exit.success

end Echo

/-! ## printf -/

namespace Printf

/-- What a directive prints. -/
inductive Conversion
  | text
  | escapedText
  | firstCharacter
  | signed
  | unsigned (base : Nat) (upper : Bool)
  deriving DecidableEq

/-- A part of a format. -/
inductive Part
  | literal (bytes : Bytes)
  /-- `\c`: nothing more is printed. -/
  | finish
  | directive (flags : List Char) (width precision : Option Nat) (conversion : Conversion)
  /-- A directive that does not exist. -/
  | unknown (text : String)

/-- The conversion of a letter. -/
def conversion? : Char → Option Conversion
  | 's' => some .text
  | 'b' => some .escapedText
  | 'c' => some .firstCharacter
  | 'd' => some .signed
  | 'i' => some .signed
  | 'u' => some (.unsigned 10 false)
  | 'o' => some (.unsigned 8 false)
  | 'x' => some (.unsigned 16 false)
  | 'X' => some (.unsigned 16 true)
  | _ => none

/-- The directive after a percent sign, and the rest. -/
def readDirective (text : List Char) : Part × List Char :=
  let isFlag := fun c => ['-', '+', ' ', '0', '#'].contains c
  let flags := text.takeWhile isFlag
  let afterFlags := text.dropWhile isFlag
  let width := readNumber 10 afterFlags
  let afterPrecision :=
    match width.2 with
    | '.' :: rest =>
      let n := readNumber 10 rest
      (some n.1, n.2)
    | rest => (none, rest)
  let widthOf := if width.2.length < afterFlags.length then some width.1 else none
  match afterPrecision.2 with
  | c :: rest =>
    match conversion? c with
    | some conversion => (.directive flags widthOf afterPrecision.1 conversion, rest)
    | none => (.unknown (String.ofList ('%' :: text.take (text.length - rest.length))), [])
  | [] => (.unknown (String.ofList ('%' :: text)), [])

/-- The parts of a format. `steps` bounds their number. -/
def partsWithin : Nat → List Char → List Part
  | 0, _ => []
  | _, [] => []
  | _ + 1, '\\' :: 'c' :: _ => [.finish]
  | steps + 1, '\\' :: '"' :: rest => .literal [34] :: partsWithin steps rest
  | steps + 1, '\\' :: rest =>
    let escape := Escape.read .threeDigits rest
    .literal escape.1 :: partsWithin steps escape.2
  | steps + 1, '%' :: '%' :: rest => .literal [37] :: partsWithin steps rest
  | steps + 1, '%' :: rest =>
    let directive := readDirective rest
    directive.1 :: partsWithin steps directive.2
  | steps + 1, c :: rest => .literal (Escape.bytesOf c) :: partsWithin steps rest

/-- The parts of a format. -/
def parts (format : String) : List Part :=
  partsWithin format.toList.length format.toList

/-- What is wrong with an argument that should be a number. -/
inductive NumberFault
  | notNumeric
  | notAllNumeric
  deriving DecidableEq

/-- The number that an argument stands for: decimal, octal after a zero, hexadecimal after
`0x`, or the code of the character after a quote. -/
def numberOf (text : String) : Int × Option NumberFault :=
  match text.toList with
  | [] => (0, none)
  | '\'' :: c :: _ => (c.toNat, none)
  | '"' :: c :: _ => (c.toNat, none)
  | chars =>
    let unsigned :=
      match chars with
      | '-' :: rest => rest
      | '+' :: rest => rest
      | rest => rest
    let digits :=
      match unsigned with
      | '0' :: 'x' :: rest => (16, rest)
      | '0' :: 'X' :: rest => (16, rest)
      | '0' :: rest => (8, '0' :: rest)
      | rest => (10, rest)
    let n := readNumber digits.1 digits.2
    let value : Int := if chars.head? == some '-' then -(n.1 : Int) else n.1
    if n.2.length = digits.2.length then (0, some .notNumeric)
    else (value, if n.2.isEmpty then none else some .notAllNumeric)

/-- Digits with at least as many places as the precision asks for. -/
def withPrecision (precision : Option Nat) (digits : List Char) : List Char :=
  List.replicate (precision.getD 1 - digits.length) '0' ++ digits

/-- The digits of a number. -/
def digitsOf (base n : Nat) : List Char :=
  if n = 0 then [] else Nat.toDigits base n

/-- A number in the places it has: sign first, then zeros if the flags ask for them. -/
def padNumber (flags : List Char) (width precision : Option Nat) (sign digits : List Char) :
    List Char :=
  let places := width.getD 0 - (sign.length + digits.length)
  if flags.contains '-' then sign ++ digits ++ List.replicate places ' '
  else if flags.contains '0' && precision.isNone then sign ++ List.replicate places '0' ++ digits
  else List.replicate places ' ' ++ sign ++ digits

/-- Bytes in the places they have. -/
def padBytes (flags : List Char) (width : Option Nat) (bytes : Bytes) : Bytes :=
  let blanks := List.replicate (width.getD 0 - bytes.length) 32
  if flags.contains '-' then bytes ++ blanks else blanks ++ bytes

/-- What a directive for an integer prints. -/
def integer (flags : List Char) (width precision : Option Nat) (conversion : Conversion)
    (n : Int) : Bytes :=
  let chars :=
    match conversion with
    | .unsigned base upper =>
      let value := (n % (UInt64.size : Int)).toNat
      let digits := withPrecision precision (digitsOf base value)
      let mark :=
        if flags.contains '#' && value != 0 then
          (if base = 16 then (if upper then ['0', 'X'] else ['0', 'x'])
           else if base = 8 then ['0'] else [])
        else []
      padNumber flags width precision mark (if upper then digits.map Char.toUpper else digits)
    | _ =>
      let sign :=
        if n < 0 then ['-']
        else if flags.contains '+' then ['+']
        else if flags.contains ' ' then [' ']
        else []
      padNumber flags width precision sign (withPrecision precision (digitsOf 10 n.natAbs))
  Utf8.encode (String.ofList chars)

/-- What a directive prints for an argument, the complaint about the argument, and whether
`\c` ends the printing. -/
def render (flags : List Char) (width precision : Option Nat) (conversion : Conversion)
    (arg : String) : Bytes × Option NumberFault × Bool :=
  let cut := fun (bytes : Bytes) =>
    match precision with
    | some n => bytes.take n
    | none => bytes
  match conversion with
  | .text => (padBytes flags width (cut (Utf8.encode arg)), none, false)
  | .escapedText =>
    let read := Escape.readAll .zeroFirst arg.toList
    (padBytes flags width (cut read.1), none, read.2)
  | .firstCharacter => (padBytes flags width ((Utf8.encode arg).take 1), none, false)
  | conversion =>
    let n := numberOf arg
    (integer flags width precision conversion n.1, n.2, false)

/-- A complaint about a number, in words. -/
def NumberFault.message (arg : String) : NumberFault → String
  | notNumeric => quoted arg ++ ": expected a numeric value"
  | notAllNumeric => quoted arg ++ ": value not completely converted"

/-- What has been printed, and how it went. -/
structure Progress where
  bytes : Bytes
  complaints : List (String × NumberFault)
  /-- The arguments that are left. -/
  args : List String
  ended : Bool
  /-- The text of a directive that does not exist. -/
  broken : Option String

/-- Prints one part. -/
def step (p : Progress) (part : Part) : Progress :=
  if p.ended then p
  else
    match part with
    | .literal bytes => { p with bytes := p.bytes ++ bytes }
    | .finish => { p with ended := true }
    | .unknown text => { p with ended := true, broken := some text }
    | .directive flags width precision conversion =>
      let arg := p.args.headD ""
      let result := render flags width precision conversion arg
      { bytes := p.bytes ++ result.1
        complaints :=
          p.complaints ++
            (if p.args.isEmpty then [] else (result.2.1.map (fun fault => (arg, fault))).toList)
        args := p.args.tail
        ended := result.2.2
        broken := none }

/-- Prints the format for the arguments, again and again while it takes some and some are
left. -/
def repeatFormat (parts : List Part) : Nat → Progress → Progress
  | 0, p => p
  | rounds + 1, p =>
    let next := parts.foldl step p
    if next.ended || next.args.isEmpty || next.args.length == p.args.length then next
    else repeatFormat parts rounds next

/-- What a format prints for arguments. -/
def format (text : String) (args : List String) : Progress :=
  repeatFormat (parts text) (args.length + 1) ⟨[], [], args, false, none⟩

/-- The program `printf`. -/
def run (call : Call) : Running Exit := do
  match (if call.args.head? == some "--" then call.args.tail else call.args) with
  | [] => call.misused "missing operand"
  | text :: args =>
    let p := format text args
    for complaint in p.complaints do
      call.complain (complaint.2.message complaint.1)
    Running.emit .output p.bytes
    match p.broken with
    | some directive =>
      call.complain (directive ++ ": invalid conversion specification")
      return Exit.ofCode 1
    | none =>
      match p.args with
      | arg :: _ =>
        if !p.ended && p.args.length == args.length then
          call.complain ("warning: ignoring excess arguments, starting with " ++ quoted arg)
      | [] => pure ()
      return Call.exitOf p.complaints.isEmpty

end Printf

end ScriptRunner

import ScriptRunner.Host.Tool.Flags
import ScriptRunner.Host.Tool.Print

/-!
# ScriptRunner.Host.Tool.Calculate

Programs that only look at their arguments: `seq`, `expr`, `basename` and `dirname`.
-/

namespace ScriptRunner

/-- The integer that a text is: digits, with a minus sign or without. -/
def integer? (text : String) : Option Int :=
  let digits :=
    match text.toList with
    | '-' :: rest => rest
    | rest => rest
  if digits.isEmpty || !digits.all isAsciiDigit then none
  else
    let n : Int := (readNumber 10 digits).1
    some (if text.startsWith "-" then -n else n)

/-! ## seq -/

namespace Counting

/-- A decimal number `value / 10 ^ places`. -/
structure Decimal where
  value : Int
  places : Nat
  deriving DecidableEq, Repr

/-- The decimal number that a text is: digits, with or without a point in them. -/
def decimal? (text : String) : Option Decimal :=
  let (negative, digits) :=
    match text.toList with
    | '-' :: rest => (true, rest)
    | '+' :: rest => (false, rest)
    | rest => (false, rest)
  let whole := digits.takeWhile (· != '.')
  let fraction := (digits.dropWhile (· != '.')).drop 1
  if (whole ++ fraction).isEmpty || !(whole ++ fraction).all isAsciiDigit then none
  else
    let n : Int := (readNumber 10 (whole ++ fraction)).1
    some ⟨if negative then -n else n, fraction.length⟩

/-- The value of a number at a number of places that is not less than its own. -/
def Decimal.scaled (d : Decimal) (places : Nat) : Int :=
  d.value * (Nat.pow 10 (places - d.places) : Nat)

/-- The numbers from `first` to `last` in steps of `step`. -/
def numbers (first step last : Int) : List Int :=
  let count := if step > 0 then (last - first) / step + 1 else (first - last) / (-step) + 1
  (List.range count.toNat).map (fun (i : Nat) => first + step * i)

/-- A number at some places as it is printed, filled up with zeros to a width. -/
def numberText (width places : Nat) (n : Int) : String :=
  let all := Nat.toDigits 10 n.natAbs
  let padded := List.replicate (places + 1 - all.length) '0' ++ all
  let whole := padded.take (padded.length - places)
  let fraction := padded.drop (padded.length - places)
  let digits := if places = 0 then whole else whole ++ '.' :: fraction
  let sign := if n < 0 then ['-'] else []
  String.ofList (sign ++ List.replicate (width - (sign.length + digits.length)) '0' ++ digits)

/-- The lines for the numbers, in the places of the first one and the step. -/
def output (flags : Flags) (first step last : Decimal) : String :=
  let places := max first.places step.places
  let scale := max places last.places
  let down := fun (n : Int) => Int.tdiv n (Nat.pow 10 (scale - places) : Nat)
  let bound := last.scaled scale
  let ns := (numbers (first.scaled scale) (step.scaled scale) bound).map down
  let width :=
    if flags.has 'w' then
      max (numberText 0 places (first.scaled places)).length (numberText 0 places (down bound)).length
    else 0
  let separator := (flags.value? 's').getD "\n"
  if ns.isEmpty then "" else separator.intercalate (ns.map (numberText width places)) ++ "\n"

/-- Whether an argument is a number after a minus sign, and so no flag. -/
def isNegative (arg : String) : Bool :=
  match arg.toList with
  | '-' :: c :: _ => isAsciiDigit c || c == '.'
  | _ => false

/-- The flags of `seq`. -/
def forms : List FlagForm := [⟨'s', "separator", true⟩, ⟨'w', "equal-width", false⟩]

/-- The program `seq`. -/
def run (call : Call) : Running Exit :=
  let numbersOnly := call.args.dropWhile (fun arg => !isNegative arg)
  let others := { call with args := call.args.takeWhile (fun arg => !isNegative arg) }
  others.withFlags forms true 1 (fun flags => do
    let operands := flags.operands ++ numbersOnly
    match operands.find? (fun operand => (decimal? operand).isNone) with
    | some bad => call.misused ("invalid floating point argument: " ++ quoted bad)
    | none =>
      let count := fun first step last => do
        Running.print (output flags first step last)
        return Exit.success
      match operands.filterMap decimal? with
      | [] => call.misused "missing operand"
      | [last] => count ⟨1, 0⟩ ⟨1, 0⟩ last
      | [first, last] => count first ⟨1, 0⟩ last
      | [first, step, last] =>
        if step.value = 0 then
          call.misused ("invalid Zero increment value: " ++ quoted (operands.getD 1 ""))
        else count first step last
      | _ => call.misused ("extra operand " ++ quoted (operands.getD 3 "")))

end Counting

/-! ## expr -/

namespace Expression

/-- Why an expression has no value. -/
inductive Fault
  | missingAfter (token : String)
  | unexpected (token : String)
  | unclosed (token : String)
  | notInteger
  | divisionByZero
  deriving DecidableEq

/-- A fault in words. -/
def Fault.message : Fault → String
  | missingAfter token => "syntax error: missing argument after " ++ quoted token
  | unexpected token =>
    if token = ")" then "syntax error: unexpected ')'"
    else "syntax error: unexpected argument " ++ quoted token
  | unclosed token => "syntax error: expecting ')' after " ++ quoted token
  | notInteger => "non-integer argument"
  | divisionByZero => "division by zero"

/-- Whether a value counts as false: the empty text, and zero. -/
def isNull (value : String) : Bool :=
  value.isEmpty || integer? value == some 0

/-- A truth value as a value. -/
def ofBool (b : Bool) : String := if b then "1" else "0"

/-- How strongly an operator binds. -/
def strength? : String → Option Nat
  | "|" => some 0
  | "&" => some 1
  | "<" => some 2
  | "<=" => some 2
  | "=" => some 2
  | "==" => some 2
  | "!=" => some 2
  | ">=" => some 2
  | ">" => some 2
  | "+" => some 3
  | "-" => some 3
  | "*" => some 4
  | "/" => some 4
  | "%" => some 4
  | _ => none

/-- Two integers compared, or two texts where one is no integer. -/
def compareValues (a b : String) : Ordering :=
  match integer? a, integer? b with
  | some x, some y => compare x y
  | _, _ => if a = b then .eq else if nameLt a b then .lt else .gt

/-- An operation on integers. -/
def arithmetic (operator : String) (a b : String) : Except Fault String :=
  match integer? a, integer? b with
  | some x, some y =>
    match operator with
    | "+" => .ok (toString (x + y))
    | "-" => .ok (toString (x - y))
    | "*" => .ok (toString (x * y))
    | "/" => if y = 0 then .error .divisionByZero else .ok (toString (Int.tdiv x y))
    | _ => if y = 0 then .error .divisionByZero else .ok (toString (Int.tmod x y))
  | _, _ => .error .notInteger

/-- The value of an operator between two values. -/
def apply (operator : String) (a b : String) : Except Fault String :=
  match operator with
  | "|" => .ok (if !isNull a then a else if !isNull b then b else "0")
  | "&" => .ok (if isNull a || isNull b then "0" else a)
  | "<" => .ok (ofBool (compareValues a b == .lt))
  | "<=" => .ok (ofBool (compareValues a b != .gt))
  | "=" => .ok (ofBool (compareValues a b == .eq))
  | "==" => .ok (ofBool (compareValues a b == .eq))
  | "!=" => .ok (ofBool (compareValues a b != .eq))
  | ">=" => .ok (ofBool (compareValues a b != .lt))
  | ">" => .ok (ofBool (compareValues a b == .gt))
  | operator => arithmetic operator a b

/-- What has been read last, and what is left. -/
structure Tokens where
  last : String
  rest : List String

mutual

/-- The value of an operand. -/
def operand : Nat → Tokens → Except Fault (String × Tokens)
  | 0, ts => .error (.missingAfter ts.last)
  | steps + 1, ts =>
    match ts.rest with
    | [] => .error (.missingAfter ts.last)
    | "(" :: rest => do
      let (value, after) ← level steps 0 ⟨"(", rest⟩
      match after.rest with
      | ")" :: more => .ok (value, ⟨")", more⟩)
      | _ => .error (.unclosed after.last)
    | ")" :: _ => .error (.unexpected ")")
    | ["+"] => .error (.missingAfter "+")
    | "+" :: token :: rest => .ok (token, ⟨token, rest⟩)
    | "length" :: rest => do
      let (value, after) ← operand steps ⟨"length", rest⟩
      .ok (toString value.utf8ByteSize, after)
    | "index" :: rest => do
      let (text, after) ← operand steps ⟨"index", rest⟩
      let (chars, after') ← operand steps after
      let position := text.toList.findIdx chars.toList.contains
      .ok (toString (if position < text.length then position + 1 else 0), after')
    | "substr" :: rest => do
      let (text, after) ← operand steps ⟨"substr", rest⟩
      let (start, after') ← operand steps after
      let (count, after'') ← operand steps after'
      match integer? start, integer? count with
      | some i, some n =>
        if i ≤ 0 ∨ n ≤ 0 then .ok ("", after'')
        else
          .ok (String.ofList ((text.toList.drop (i.toNat - 1)).take n.toNat), after'')
      | _, _ => .ok ("", after'')
    | token :: rest => .ok (token, ⟨token, rest⟩)

/-- The value of operators that bind at least as strongly as `least`. -/
def level : Nat → Nat → Tokens → Except Fault (String × Tokens)
  | 0, _, ts => .error (.missingAfter ts.last)
  | steps + 1, least, ts => do
    let (value, after) ← operand steps ts
    continued steps least value after

/-- The value of the operators that follow a value. -/
def continued : Nat → Nat → String → Tokens → Except Fault (String × Tokens)
  | 0, _, value, ts => .ok (value, ts)
  | steps + 1, least, value, ts =>
    match ts.rest with
    | [] => .ok (value, ts)
    | operator :: rest =>
      match strength? operator with
      | none => .ok (value, ts)
      | some strength =>
        if strength < least then .ok (value, ts)
        else do
          let (right, after) ← level steps (strength + 1) ⟨operator, rest⟩
          continued steps least (← apply operator value right) after

end

/-- The value of an expression. -/
def evaluate (tokens : List String) : Except Fault String := do
  let (value, after) ← level (4 * tokens.length + 4) 0 ⟨"", tokens⟩
  match after.rest with
  | [] => .ok value
  | token :: _ => .error (.unexpected token)

/-- The program `expr`. -/
def run (call : Call) : Running Exit := do
  let tokens := if call.args.head? == some "--" then call.args.tail else call.args
  if tokens.isEmpty then
    let _ ← call.misused "missing operand"
    return Exit.ofCode 2
  else
    match evaluate tokens with
    | .error fault =>
      call.complain fault.message
      return Exit.ofCode 2
    | .ok value =>
      Running.print (value ++ "\n")
      return Call.exitOf (!isNull value)

end Expression

/-! ## basename, dirname -/

namespace PathText

/-- A path without the slashes at its end. -/
def trimmed (path : List Char) : List Char := Text.dropEndWhile (· == '/') path

/-- The last name of a path; the root is its own. -/
def baseName (path : String) : String :=
  let chars := path.toList
  if chars.isEmpty then ""
  else if chars.all (· == '/') then "/"
  else String.ofList ((trimmed chars).reverse.takeWhile (· != '/')).reverse

/-- A name without a suffix that is not all of it. -/
def withoutSuffix (suffix name : String) : String :=
  if suffix != name && suffix.toList.isSuffixOf name.toList then
    String.ofList (name.toList.take (name.length - suffix.length))
  else name

/-- A path without its last name. -/
def directoryName (path : String) : String :=
  let chars := path.toList
  let around := Text.dropEndWhile (· != '/') (trimmed chars)
  if around.isEmpty then (if chars.head? == some '/' then "/" else ".")
  else if around.all (· == '/') then "/"
  else String.ofList (trimmed around)

/-- Prints one line for each operand; the flag `z` ends it with NUL in place of a line
feed. -/
def printEach (flags : Flags) (f : String → String) (operands : List String) : Running Exit := do
  let ending := if flags.has 'z' then "\x00" else "\n"
  Running.print (String.join (operands.map (fun operand => f operand ++ ending)))
  return Exit.success

/-- The flags of `basename`. -/
def baseNameForms : List FlagForm :=
  [⟨'a', "multiple", false⟩, ⟨'s', "suffix", true⟩, ⟨'z', "zero", false⟩]

/-- The program `basename`. -/
def runBaseName (call : Call) : Running Exit :=
  call.withFlags baseNameForms true 1 (fun flags =>
    let several := flags.has 'a' || flags.has 's'
    match flags.operands with
    | [] => call.misused "missing operand"
    | [name, suffix] =>
      if several then printEach flags (named flags) [name, suffix]
      else printEach flags (fun n => withoutSuffix suffix (baseName n)) [name]
    | name :: names =>
      match names.drop 1 with
      | [] => printEach flags (named flags) (name :: names)
      | extra :: _ =>
        if several then printEach flags (named flags) (name :: names)
        else call.misused ("extra operand " ++ quoted extra))
where
  named (flags : Flags) (path : String) : String :=
    withoutSuffix ((flags.value? 's').getD "") (baseName path)

/-- The program `dirname`. -/
def runDirectoryName (call : Call) : Running Exit :=
  call.withFlags [⟨'z', "zero", false⟩] false 1 (fun flags =>
    if flags.operands.isEmpty then call.misused "missing operand"
    else printEach flags directoryName flags.operands)

end PathText

end ScriptRunner

import ScriptRunner.Command.Name
import ScriptRunner.Host.Tool.Calculate

/-!
# ScriptRunner.Host.Shell.Arithmetic

The arithmetic of the program `sh`: what stands between `$((` and `))`.

An expression is read into a `Term` and then evaluated. Values have 64 bits and wrap around.
A name stands for the number in its variable, a missing or empty one for zero, and an
assignment changes the variables even in the middle of an expression. Where the value of an
operand cannot matter, its assignments do not happen.
-/

namespace ScriptRunner.Shell.Arithmetic

/-- Why an expression has no value. -/
inductive Fault
  | expecting (what : String)
  | divisionByZero
  /-- The value of a variable is no number. -/
  | illegalNumber (text : String)
  deriving DecidableEq

/-- A fault in words, for the text of an expression. -/
def Fault.message (text : String) : Fault → String
  | expecting what => "arithmetic expression: expecting " ++ what ++ ": \"" ++ text ++ "\""
  | divisionByZero => "arithmetic expression: division by zero: \"" ++ text ++ "\""
  | illegalNumber value => "Illegal number: " ++ value

/-! ## Tokens -/

/-- A part of an expression. -/
inductive Token
  | number (n : Int)
  | name (text : String)
  | sign (text : String)
  /-- A character that means nothing. -/
  | foreign (c : Char)

/-- The signs, longer ones before their beginnings. -/
def signs : List String :=
  ["<<=", ">>=", "<<", ">>", "<=", ">=", "==", "!=", "&&", "||", "+=", "-=", "*=", "/=", "%=",
    "&=", "|=", "^=", "+", "-", "*", "/", "%", "<", ">", "&", "|", "^", "!", "~", "?", ":", "=",
    "(", ")"]

/-- A value as one of 64 bits. -/
def wrap (n : Int) : Int := Int.bmod n UInt64.size

/-- The greatest value; a larger number counts as this one. -/
def greatest : Nat := UInt64.size / 2 - 1

/-- A number at the start of a text: decimal, octal after a zero, or hexadecimal after
`0x`. -/
def readLiteral (text : List Char) : Nat × List Char :=
  match text with
  | '0' :: 'x' :: rest => readNumber 16 rest
  | '0' :: 'X' :: rest => readNumber 16 rest
  | '0' :: _ => readNumber 8 text
  | _ => readNumber 10 text

/-- The tokens of a text. `steps` bounds their number. -/
def tokensWithin : Nat → List Char → List Token
  | 0, _ => []
  | _, [] => []
  | steps + 1, c :: rest =>
    if c = ' ' ∨ c = '\t' ∨ c = '\n' then tokensWithin steps rest
    else if isAsciiDigit c then
      let literal := readLiteral (c :: rest)
      .number (min literal.1 greatest) :: tokensWithin steps literal.2
    else if isNameStart c then
      .name (String.ofList ((c :: rest).takeWhile isNameChar)) ::
        tokensWithin steps ((c :: rest).dropWhile isNameChar)
    else
      match signs.find? (fun sign => sign.toList.isPrefixOf (c :: rest)) with
      | some sign => .sign sign :: tokensWithin steps ((c :: rest).drop sign.length)
      | none => .foreign c :: tokensWithin steps rest

/-- The tokens of a text. -/
def tokens (text : List Char) : List Token := tokensWithin text.length text

/-! ## Terms -/

/-- An expression. -/
inductive Term
  | number (n : Int)
  | variable (name : String)
  | unary (operator : String) (operand : Term)
  | binary (operator : String) (first second : Term)
  | choice (condition yes no : Term)
  /-- An assignment; the operator is the one that stands before the `=`. -/
  | assign (name operator : String) (value : Term)

/-- How strongly an operator between two operands binds. -/
def strength? : String → Option Nat
  | "||" => some 0
  | "&&" => some 1
  | "|" => some 2
  | "^" => some 3
  | "&" => some 4
  | "==" => some 5
  | "!=" => some 5
  | "<" => some 6
  | "<=" => some 6
  | ">" => some 6
  | ">=" => some 6
  | "<<" => some 7
  | ">>" => some 7
  | "+" => some 8
  | "-" => some 8
  | "*" => some 9
  | "/" => some 9
  | "%" => some 9
  | _ => none

/-- The operator that a sign of assignment applies first; none for a mere `=`. -/
def assigned? (sign : String) : Option String :=
  if sign = "=" then some ""
  else if ["<<=", ">>=", "+=", "-=", "*=", "/=", "%=", "&=", "|=", "^="].contains sign then
    some (String.ofList sign.toList.dropLast)
  else none

mutual

/-- Reads an operand. -/
def readOperand : Nat → List Token → Except Fault (Term × List Token)
  | 0, _ => .error (.expecting "primary")
  | _, [] => .error (.expecting "primary")
  | _ + 1, .number n :: rest => .ok (.number n, rest)
  | _ + 1, .name text :: rest => .ok (.variable text, rest)
  | steps + 1, .sign sign :: rest =>
    if sign = "(" then do
      let (term, after) ← readTerm steps rest
      match after with
      | .sign ")" :: more => .ok (term, more)
      | _ => .error (.expecting "')'")
    else if ["+", "-", "!", "~"].contains sign then do
      let (operand, after) ← readOperand steps rest
      .ok (.unary sign operand, after)
    else .error (.expecting "primary")
  | _ + 1, .foreign _ :: _ => .error (.expecting "primary")

/-- Reads an operand and the operators after it that bind at least as strongly as
`least`. -/
def readLevel : Nat → Nat → List Token → Except Fault (Term × List Token)
  | 0, _, _ => .error (.expecting "primary")
  | steps + 1, least, tokens => do
    let (first, after) ← readOperand steps tokens
    readOperators steps least first after

/-- Reads the operators that follow an operand. -/
def readOperators : Nat → Nat → Term → List Token → Except Fault (Term × List Token)
  | 0, _, first, tokens => .ok (first, tokens)
  | steps + 1, least, first, tokens =>
    match tokens with
    | .sign sign :: rest =>
      match (strength? sign).filter (least ≤ ·) with
      | some strength => do
        let (second, after) ← readLevel steps (strength + 1) rest
        readOperators steps least (.binary sign first second) after
      | none => .ok (first, tokens)
    | _ => .ok (first, tokens)

/-- Reads a whole expression: an assignment, a choice, or operators. -/
def readTerm : Nat → List Token → Except Fault (Term × List Token)
  | 0, _ => .error (.expecting "primary")
  | steps + 1, tokens =>
    match tokens with
    | .name name :: .sign sign :: rest =>
      match assigned? sign with
      | some operator => do
        let (value, after) ← readTerm steps rest
        .ok (.assign name operator value, after)
      | none => readChoice steps tokens
    | _ => readChoice steps tokens

/-- Reads operators, and a choice if they are its condition. -/
def readChoice : Nat → List Token → Except Fault (Term × List Token)
  | 0, _ => .error (.expecting "primary")
  | steps + 1, tokens => do
    let (condition, after) ← readLevel steps 0 tokens
    match after with
    | .sign "?" :: rest =>
      let (yes, after') ← readTerm steps rest
      match after' with
      | .sign ":" :: rest' =>
        let (no, after'') ← readChoice steps rest'
        .ok (.choice condition yes no, after'')
      | _ => .error (.expecting "':'")
    | _ => .ok (condition, after)

end

/-- The expression of a text. -/
def parse (text : List Char) : Except Fault Term := do
  let all := tokens text
  let (term, rest) ← readTerm (16 * all.length + 16) all
  if rest.isEmpty then .ok term else .error (.expecting "EOF")

/-! ## Values -/

/-- The number in a variable. -/
def numberOf (value : String) : Except Fault Int :=
  let text := Text.trim value.toList
  let (negative, digits) :=
    match text with
    | '-' :: rest => (true, rest)
    | '+' :: rest => (false, rest)
    | rest => (false, rest)
  let literal := readLiteral digits
  if text.isEmpty then .ok 0
  else if digits.isEmpty ∨ !literal.2.isEmpty then .error (.illegalNumber value)
  else .ok (if negative then -(literal.1 : Int) else literal.1)

/-- A truth value as a number. -/
def ofBool (b : Bool) : Int := if b then 1 else 0

/-- The value of an operator before an operand. -/
def applyUnary (operator : String) (n : Int) : Int :=
  match operator with
  | "-" => wrap (-n)
  | "!" => ofBool (n == 0)
  | "~" => -n - 1
  | _ => n

/-- An operation on the bits of two values. -/
def onBits (f : UInt64 → UInt64 → UInt64) (a b : Int) : Int :=
  wrap (f (UInt64.ofNat (a % UInt64.size).toNat) (UInt64.ofNat (b % UInt64.size).toNat)).toNat

/-- The value of an operator between two operands. -/
def applyBinary (operator : String) (a b : Int) : Except Fault Int :=
  match operator with
  | "|" => .ok (onBits (· ||| ·) a b)
  | "^" => .ok (onBits (· ^^^ ·) a b)
  | "&" => .ok (onBits (· &&& ·) a b)
  | "==" => .ok (ofBool (a == b))
  | "!=" => .ok (ofBool (a != b))
  | "<" => .ok (ofBool (a < b))
  | "<=" => .ok (ofBool (a ≤ b))
  | ">" => .ok (ofBool (b < a))
  | ">=" => .ok (ofBool (b ≤ a))
  | "<<" => .ok (wrap (a * (1 <<< (b % 64).toNat : Nat)))
  | ">>" => .ok (a / (1 <<< (b % 64).toNat : Nat))
  | "+" => .ok (wrap (a + b))
  | "-" => .ok (wrap (a - b))
  | "*" => .ok (wrap (a * b))
  | "/" => if b = 0 then .error .divisionByZero else .ok (wrap (Int.tdiv a b))
  | "%" => if b = 0 then .error .divisionByZero else .ok (Int.tmod a b)
  | _ => .ok b

/-- The value of an expression, and the variables after it. -/
def Term.evaluate (vars : Env) : Term → Except Fault (Int × Env)
  | .number n => .ok (n, vars)
  | .variable name => do return (← numberOf ((vars.lookup name).getD ""), vars)
  | .unary operator operand => do
    let (n, vars') ← operand.evaluate vars
    return (applyUnary operator n, vars')
  | .binary operator first second => do
    let (a, vars') ← first.evaluate vars
    if operator = "||" ∧ a != 0 then return (1, vars')
    else if operator = "&&" ∧ a = 0 then return (0, vars')
    else
      let (b, vars'') ← second.evaluate vars'
      if operator = "||" ∨ operator = "&&" then return (ofBool (b != 0), vars'')
      else return (← applyBinary operator a b, vars'')
  | .choice condition yes no => do
    let (n, vars') ← condition.evaluate vars
    if n != 0 then yes.evaluate vars' else no.evaluate vars'
  | .assign name operator value => do
    let (b, vars') ← value.evaluate vars
    let a ← if operator.isEmpty then pure b else numberOf ((vars'.lookup name).getD "")
    let n ← applyBinary operator a b
    return (n, vars'.bind name (toString n))

/-- The value of the text of an expression, and the variables after it. -/
def value (vars : Env) (text : String) : Except String (Int × Env) :=
  match parse text.toList with
  | .error fault => .error (fault.message text)
  | .ok term =>
    match term.evaluate vars with
    | .error fault => .error (fault.message text)
    | .ok result => .ok result

end ScriptRunner.Shell.Arithmetic

import ScriptRunner.Batch.Event

/-!
# ScriptRunner.Batch.Report

Batch events as lines for a console, and elapsed times as text.

A time is shown in seconds with one decimal. It is first taken as a double: the seconds
plus the quotient of the nanoseconds by a thousand million, each operation rounded to 53
significant bits. The one decimal is then rounded from the exact value of that double, a
tie going to the even digit.
-/

namespace ScriptRunner

namespace Elapsed

/-- The nearest integer to `num / den`; a tie goes to the even one. -/
def roundDiv (num den : Nat) : Nat :=
  let q := num / den
  let twice := 2 * (num % den)
  if twice < den then q
  else if den < twice then q + 1
  else if q % 2 = 0 then q
  else q + 1

/-- A number `mantissa / 2 ^ scale`. -/
structure Binary where
  mantissa : Nat
  scale : Nat
  deriving DecidableEq, Repr

/-- The number of significant bits of a double. -/
def precision : Nat := 53

/-- The double nearest to `n` thousand-millionths, for `n` below a thousand million. The
scale is the least with which the mantissa has all its bits. -/
def ofNanos (n : Nat) : Binary :=
  if n = 0 then ⟨0, 0⟩
  else
    let unit := 1000000000
    let base := precision + (Nat.log2 unit - Nat.log2 n)
    let scale := if n <<< (base - 1) < unit <<< (precision - 1) then base else base - 1
    ⟨roundDiv (n <<< scale) unit, scale⟩

/-- The double nearest to a number. -/
def Binary.round (b : Binary) : Binary :=
  let bits := Nat.log2 b.mantissa + 1
  if bits ≤ precision then b
  else
    let drop := min (bits - precision) b.scale
    ⟨roundDiv b.mantissa (1 <<< drop), b.scale - drop⟩

/-- The seconds of a time in nanoseconds, as a double. -/
def seconds (nanos : Nat) : Binary :=
  let whole := nanos / 1000000000
  let part := ofNanos (nanos % 1000000000)
  Binary.round ⟨whole <<< part.scale + part.mantissa, part.scale⟩

/-- A time in nanoseconds as text. -/
def text (nanos : Nat) : String :=
  let s := seconds nanos
  let tenths := roundDiv (s.mantissa * 10) (1 <<< s.scale)
  toString (tenths / 10) ++ "." ++ toString (tenths % 10) ++ "s"

end Elapsed

/-- The line about an event, if it has one. A finished action shows its time if that
exceeds the threshold, both in nanoseconds. -/
def BatchEvent.line? (elapsed threshold : Nat) : BatchEvent → Option String
  | loaded _ => none
  | started name => some ("\u29bf '" ++ name ++ "' started")
  | ended name failure =>
    let verdict :=
      match failure with
      | none => "\u2713 '" ++ name ++ "' completed"
      | some _ => "\u2717 '" ++ name ++ "' failed"
    if threshold < elapsed then some (verdict ++ " (" ++ Elapsed.text elapsed ++ ")")
    else some verdict

end ScriptRunner

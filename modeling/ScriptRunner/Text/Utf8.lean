/-!
# ScriptRunner.Text.Utf8

Bytes and text. Programs print bytes; the session shows text. `Utf8.decode?` reads a
file that has to be valid UTF-8, `Utf8.decodeLossy` reads whatever a program printed:
there each maximal ill-formed part becomes one U+FFFD, so decoding never fails and
never loses the text around a bad byte.
-/

namespace ScriptRunner

/-- A run of bytes. -/
abbrev Bytes := List UInt8

namespace Utf8

/-- The bytes of a text. -/
def encode (text : String) : Bytes :=
  text.toUTF8.toList

/-- The text of valid UTF-8. -/
def decode? (bytes : Bytes) : Option String :=
  String.fromUTF8? ⟨bytes.toArray⟩

/-- The replacement character. -/
def replacement : Char := '\uFFFD'

/-- A continuation byte. -/
def isTail (b : UInt8) : Bool :=
  0x80 ≤ b && b ≤ 0xBF

/-- The low six bits of a continuation byte. -/
def tailBits (b : UInt8) : Nat :=
  b.toNat % 64

/-- The bytes that may follow a lead byte of three or four: the narrowed ranges keep
out overlong forms, surrogates and code points above U+10FFFF. -/
def secondRange (lead : UInt8) : UInt8 × UInt8 :=
  if lead == 0xE0 then (0xA0, 0xBF)
  else if lead == 0xED then (0x80, 0x9F)
  else if lead == 0xF0 then (0x90, 0xBF)
  else if lead == 0xF4 then (0x80, 0x8F)
  else (0x80, 0xBF)

/-- Whether `b` may follow `lead`. -/
def isSecond (lead b : UInt8) : Bool :=
  (secondRange lead).1 ≤ b && b ≤ (secondRange lead).2

/-- The characters of a run of bytes, each maximal ill-formed part replaced. -/
def decodeChars : Bytes → List Char
  | [] => []
  | b :: rest =>
    if b < 0x80 then
      Char.ofNat b.toNat :: decodeChars rest
    else if 0xC2 ≤ b && b ≤ 0xDF then
      match rest with
      | c :: rest₁ =>
        if isTail c then Char.ofNat (b.toNat % 32 * 64 + tailBits c) :: decodeChars rest₁
        else replacement :: decodeChars (c :: rest₁)
      | [] => [replacement]
    else if 0xE0 ≤ b && b ≤ 0xEF then
      match rest with
      | c :: rest₁ =>
        if isSecond b c then
          match rest₁ with
          | d :: rest₂ =>
            if isTail d then
              Char.ofNat ((b.toNat % 16 * 64 + tailBits c) * 64 + tailBits d)
                :: decodeChars rest₂
            else replacement :: decodeChars (d :: rest₂)
          | [] => [replacement]
        else replacement :: decodeChars (c :: rest₁)
      | [] => [replacement]
    else if 0xF0 ≤ b && b ≤ 0xF4 then
      match rest with
      | c :: rest₁ =>
        if isSecond b c then
          match rest₁ with
          | d :: rest₂ =>
            if isTail d then
              match rest₂ with
              | e :: rest₃ =>
                if isTail e then
                  Char.ofNat
                      (((b.toNat % 8 * 64 + tailBits c) * 64 + tailBits d) * 64 + tailBits e)
                    :: decodeChars rest₃
                else replacement :: decodeChars (e :: rest₃)
              | [] => [replacement]
            else replacement :: decodeChars (d :: rest₂)
          | [] => [replacement]
        else replacement :: decodeChars (c :: rest₁)
      | [] => [replacement]
    else replacement :: decodeChars rest
termination_by bytes => bytes.length

/-- The text of a run of bytes, each maximal ill-formed part replaced. -/
def decodeLossy (bytes : Bytes) : String :=
  String.ofList (decodeChars bytes)

end Utf8

end ScriptRunner

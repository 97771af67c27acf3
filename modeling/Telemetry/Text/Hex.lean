/-
  Hexadecimal text of bytes: two lower-case digits a byte when writing; either case when
  reading, and an odd number of digits or any other character is refused.
-/

namespace Telemetry

namespace Hex

/-- Lower-case digit of a nibble. -/
def digitChar (n : Nat) : Char := "0123456789abcdef".toList.getD n '0'

/-- Two digits of a byte. -/
def byteChars (b : UInt8) : List Char := [digitChar (b.toNat / 16), digitChar (b.toNat % 16)]

/-- Lower-case hexadecimal text. -/
def encode (bs : List UInt8) : String := String.ofList (bs.flatMap byteChars)

/-- Value of a digit of either case. -/
def digitValue? (c : Char) : Option Nat :=
  if '0' ≤ c && c ≤ '9' then some (c.toNat - '0'.toNat)
  else if 'a' ≤ c && c ≤ 'f' then some (c.toNat - 'a'.toNat + 10)
  else if 'A' ≤ c && c ≤ 'F' then some (c.toNat - 'A'.toNat + 10)
  else none

/-- Bytes of digit pairs. -/
def decodeChars : List Char → Option (List UInt8)
  | [] => some []
  | [_] => none
  | a :: b :: rest => do
    let x ← digitValue? a
    let y ← digitValue? b
    let tail ← decodeChars rest
    pure ((x * 16 + y).toUInt8 :: tail)

/-- Bytes of hexadecimal text. -/
def decode? (s : String) : Option (List UInt8) := decodeChars s.toList

end Hex

end Telemetry

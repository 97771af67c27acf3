/-
  Base64 with the standard alphabet and `=` padding (RFC 4648), read strictly: whole groups
  of four characters, padding only at the very end, and the bits that padding leaves over
  must be zero, so every byte string has exactly one accepted text.
-/

namespace Telemetry

namespace Base64

/-- Value of an alphabet character. -/
def value? (c : Char) : Option Nat :=
  if 'A' ≤ c && c ≤ 'Z' then some (c.toNat - 'A'.toNat)
  else if 'a' ≤ c && c ≤ 'z' then some (c.toNat - 'a'.toNat + 26)
  else if '0' ≤ c && c ≤ '9' then some (c.toNat - '0'.toNat + 52)
  else if c == '+' then some 62
  else if c == '/' then some 63
  else none

/-- Decodes groups of four characters. -/
def decodeGroups : List Char → Option (List UInt8)
  | [] => some []
  | [a, b, '=', '='] => do
    let x ← value? a
    let y ← value? b
    if y % 16 != 0 then none
    pure [(x * 4 + y / 16).toUInt8]
  | [a, b, c, '='] => do
    let x ← value? a
    let y ← value? b
    let z ← value? c
    if z % 4 != 0 then none
    pure [(x * 4 + y / 16).toUInt8, ((y % 16) * 16 + z / 4).toUInt8]
  | a :: b :: c :: d :: rest => do
    let x ← value? a
    let y ← value? b
    let z ← value? c
    let w ← value? d
    let tail ← decodeGroups rest
    pure ((x * 4 + y / 16).toUInt8 :: ((y % 16) * 16 + z / 4).toUInt8 ::
      ((z % 4) * 64 + w).toUInt8 :: tail)
  | _ => none

/-- The bytes of base64 text. -/
def decode? (s : String) : Option (List UInt8) := decodeGroups s.toList

end Base64

end Telemetry

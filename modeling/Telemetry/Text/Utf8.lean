/-
  UTF-8 as bytes. `decode?` accepts exactly the well-formed sequences of the Unicode
  standard: shortest forms only, no surrogate code points, nothing above `U+10FFFF`.
  `encode` writes a character's one to four bytes.
-/

namespace Telemetry

namespace Utf8

/-- The bytes of one character. -/
def encodeChar (c : Char) : List UInt8 :=
  let n := c.toNat
  if n < 0x80 then [n.toUInt8]
  else if n < 0x800 then [(0xc0 + n / 64).toUInt8, (0x80 + n % 64).toUInt8]
  else if n < 0x10000 then
    [(0xe0 + n / 4096).toUInt8, (0x80 + n / 64 % 64).toUInt8, (0x80 + n % 64).toUInt8]
  else
    [(0xf0 + n / 262144).toUInt8, (0x80 + n / 4096 % 64).toUInt8,
      (0x80 + n / 64 % 64).toUInt8, (0x80 + n % 64).toUInt8]

/-- The bytes of a text. -/
def encode (s : String) : List UInt8 := s.toList.flatMap encodeChar

/-- A continuation byte `10xxxxxx`. -/
def isCont (b : UInt8) : Bool := b &&& 0xc0 == 0x80

/-- The six payload bits of a continuation byte. -/
def low6 (b : UInt8) : Nat := (b &&& 0x3f).toNat

/-- A code point that may stand in text (not a surrogate, at most `U+10FFFF`). -/
def scalar? (n : Nat) : Option Char :=
  if n.isValidChar then some (Char.ofNat n) else none

/-- Reads the first character of a byte list: the character and the bytes after it. -/
def decodeOne : List UInt8 → Option (Char × List UInt8)
  | [] => none
  | b :: rest =>
    if b < 0x80 then (scalar? b.toNat).map (·, rest)
    else if b < 0xc2 then none
    else if b < 0xe0 then
      match rest with
      | c :: r => if isCont c then (scalar? ((b.toNat - 0xc0) * 64 + low6 c)).map (·, r) else none
      | _ => none
    else if b < 0xf0 then
      match rest with
      | c :: d :: r =>
        if isCont c && isCont d then
          let n := (b.toNat - 0xe0) * 4096 + low6 c * 64 + low6 d
          if n < 0x800 then none else (scalar? n).map (·, r)
        else none
      | _ => none
    else if b < 0xf5 then
      match rest with
      | c :: d :: e :: r =>
        if isCont c && isCont d && isCont e then
          let n := (b.toNat - 0xf0) * 262144 + low6 c * 4096 + low6 d * 64 + low6 e
          if n < 0x10000 then none else (scalar? n).map (·, r)
        else none
      | _ => none
    else none

/-- The characters of well-formed UTF-8, or `none`. -/
def decodeChars : Nat → List UInt8 → Option (List Char)
  | _, [] => some []
  | 0, _ => none
  | fuel + 1, bs => do
    let (c, rest) ← decodeOne bs
    let cs ← decodeChars fuel rest
    pure (c :: cs)

/-- The text of well-formed UTF-8, or `none`. -/
def decode? (bs : List UInt8) : Option String :=
  (decodeChars bs.length bs).map String.ofList

/-- The bytes are well-formed UTF-8. -/
def isValid (bs : List UInt8) : Bool := (decode? bs).isSome

end Utf8

end Telemetry

/-
  Reading DER (ITU-T X.690, distinguished rules): a value is a one-byte tag, a length in
  the shortest form (long form only from 128 on, at most four length bytes, no leading zero
  byte) and that many content bytes. An unsigned INTEGER is minimal two's complement: no
  superfluous leading zero, and no set top bit (which would make it negative).
-/

namespace Telemetry

namespace Der

/-- A big-endian number from bytes. -/
def bigEndian (bs : List UInt8) : Nat := bs.foldl (fun acc b => acc * 256 + b.toNat) 0

/-- Reads the length field: the length and the bytes after the field. -/
def length : List UInt8 → Option (Nat × List UInt8)
  | [] => none
  | b :: rest =>
    if b < 0x80 then some (b.toNat, rest)
    else
      let n := (b - 0x80).toNat
      if n == 0 || n > 4 || rest.length < n then none
      else
        let bs := rest.take n
        let v := bigEndian bs
        if v < 128 || bs.head? == some 0 then none else some (v, rest.drop n)

/-- Reads one value: its tag, its content and the bytes after it. -/
def value : List UInt8 → Option (UInt8 × List UInt8 × List UInt8)
  | [] => none
  | tag :: rest =>
    if tag &&& 0x1f == 0x1f then none
    else do
      let (len, rest) ← length rest
      if rest.length < len then none
      pure (tag, rest.take len, rest.drop len)

/-- Reads a value that must carry the given tag: its content and the bytes after it. -/
def expect (tag : UInt8) (bs : List UInt8) : Option (List UInt8 × List UInt8) := do
  let (t, content, rest) ← value bs
  if t != tag then none
  pure (content, rest)

/-- Tags used by key files. -/
def tagInteger : UInt8 := 0x02
def tagBitString : UInt8 := 0x03
def tagOctetString : UInt8 := 0x04
def tagNull : UInt8 := 0x05
def tagOid : UInt8 := 0x06
def tagSequence : UInt8 := 0x30

/-- Reads an unsigned INTEGER. -/
def unsigned (bs : List UInt8) : Option (Nat × List UInt8) := do
  let (content, rest) ← expect tagInteger bs
  match content with
  | [] => none
  | [0] => pure (0, rest)
  | 0 :: b :: _ => if b < 0x80 then none else pure (bigEndian content, rest)
  | b :: _ => if b ≥ 0x80 then none else pure (bigEndian content, rest)

/-- The contents of a BIT STRING with no unused bits. -/
def bitStringBytes (content : List UInt8) : Option (List UInt8) :=
  match content with
  | 0 :: bytes => some bytes
  | _ => none

end Der

end Telemetry

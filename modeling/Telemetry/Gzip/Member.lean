import Telemetry.Gzip.Inflate
import Telemetry.Gzip.Crc32

/-
  The gzip format (RFC 1952): a header, a deflate stream and a trailer with the CRC-32 and
  length of the content.

  Reading takes the first member only and ignores bytes after it. The header must name
  deflate (`CM = 8`) and leave the reserved flag bits clear; the optional extra field, name,
  comment and header checksum are skipped, the checksum checked against the low half of the
  CRC-32 of the header bytes before it. Content beyond `limit` bytes is refused as soon as
  it appears, before the trailer is looked at.

  Writing uses stored blocks, so `decompress (compress d) = d` for every `d` within the limit.
-/

namespace Telemetry

namespace Gzip

/-- The largest content accepted: 16 MiB. -/
def limit : Nat := 16 * 1024 * 1024

/-- Little-endian number of `n` bytes at `pos`. -/
def littleEndian (data : ByteArray) (pos n : Nat) : Nat :=
  (List.range n).foldl (fun acc i => acc + (data.get! (pos + i)).toNat * Nat.pow 256 i) 0

/-- Position just after the zero byte that ends a text field starting at `pos`. -/
def afterZero (data : ByteArray) (pos : Nat) : Option Nat :=
  ((List.range (data.size - pos)).find? fun i => data.get! (pos + i) == 0).map (pos + · + 1)

/-- Position of the deflate stream after a well-formed header. -/
def headerEnd (data : ByteArray) : Option Nat := do
  if data.size < 10 then none
  if data.get! 0 != 0x1f || data.get! 1 != 0x8b || data.get! 2 != 8 then none
  let flags := data.get! 3
  if flags &&& 0xe0 != 0 then none
  let pos := 10
  let pos ← if flags &&& 0x04 != 0 then
      if pos + 2 > data.size then none
      else
        let next := pos + 2 + littleEndian data pos 2
        if next > data.size then none else some next
    else some pos
  let pos ← if flags &&& 0x08 != 0 then afterZero data pos else some pos
  let pos ← if flags &&& 0x10 != 0 then afterZero data pos else some pos
  if flags &&& 0x02 != 0 then
    if pos + 2 > data.size then none
    else
      let crc := (Crc32.checksum (data.extract 0 pos)).toNat % 65536
      if crc != littleEndian data pos 2 then none else some (pos + 2)
  else some pos

/-- The content of the first gzip member of `data`, at most `max` bytes. -/
def decompressWithin (max : Nat) (data : ByteArray) : Except InflateFault ByteArray :=
  match headerEnd data with
  | none => .error .corrupt
  | some start =>
    match Inflate.inflate data start max with
    | .error .full => .error (.tooLarge max)
    | .error .corrupt => .error .corrupt
    | .ok (out, stop) =>
      if stop + 8 > data.size then .error .corrupt
      else if littleEndian data stop 4 != (Crc32.checksum out).toNat then .error .corrupt
      else if littleEndian data (stop + 4) 4 != out.size % Nat.pow 2 32 then .error .corrupt
      else .ok out

/-- The content of the first gzip member of `data`, within the 16 MiB limit. -/
def decompress (data : ByteArray) : Except InflateFault ByteArray := decompressWithin limit data

/-- Little-endian bytes of a number. -/
def leBytes (v n : Nat) : List UInt8 := (List.range n).map fun i => (v / Nat.pow 256 i % 256).toUInt8

/-- Stored deflate blocks of at most 65535 bytes each, the last one marked final. -/
def storedBlocks (data : ByteArray) : Nat → Nat → ByteArray → ByteArray
  | 0, _, acc => acc
  | fuel + 1, pos, acc =>
    let len := min 65535 (data.size - pos)
    let final := pos + len ≥ data.size
    let acc := acc ++ ⟨#[if final then 1 else 0]⟩ ++ ⟨(leBytes len 2 ++ leBytes (65535 - len) 2).toArray⟩
      ++ data.extract pos (pos + len)
    if final then acc else storedBlocks data fuel (pos + len) acc

/-- A gzip member holding `data` in stored blocks. -/
def compress (data : ByteArray) : ByteArray :=
  let header : ByteArray := ⟨#[0x1f, 0x8b, 8, 0, 0, 0, 0, 0, 0, 0xff]⟩
  let body := storedBlocks data (data.size / 65535 + 1) 0 ByteArray.empty
  let trailer : ByteArray :=
    ⟨(leBytes (Crc32.checksum data).toNat 4 ++ leBytes (data.size % Nat.pow 2 32) 4).toArray⟩
  header ++ body ++ trailer

end Gzip

end Telemetry

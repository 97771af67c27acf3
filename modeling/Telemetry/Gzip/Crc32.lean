/-
  CRC-32 as gzip uses it (ISO 3309): the reflected polynomial `0xEDB88320`, an all-ones
  start value and a final complement. `Crc32.update` extends a running value over more bytes,
  so the checksum of a concatenation is computed in pieces.
-/

namespace Telemetry

namespace Crc32

/-- One byte's step of the bitwise definition, eight shifts of the register. -/
def stepByte (c : UInt32) : UInt32 :=
  (List.range 8).foldl (fun (c : UInt32) _ => if c &&& 1 == 1 then (0xedb88320 : UInt32) ^^^ (c >>> 1) else c >>> 1) c

/-- The 256 register steps, one per low byte. -/
def table : Array UInt32 := (Array.range 256).map fun n => stepByte n.toUInt32

/-- The running register after more bytes (the register holds the complemented value). -/
def updateRegister (reg : UInt32) (data : ByteArray) : UInt32 :=
  data.foldl (fun c b => table.getD ((c ^^^ b.toUInt32) &&& 0xff).toNat 0 ^^^ (c >>> 8)) reg

/-- The checksum of `data` continuing from the checksum `crc` of what came before. -/
def update (crc : UInt32) (data : ByteArray) : UInt32 :=
  updateRegister (crc ^^^ 0xffffffff) data ^^^ 0xffffffff

/-- The checksum of a byte string. -/
def checksum (data : ByteArray) : UInt32 := update 0 data

end Crc32

end Telemetry

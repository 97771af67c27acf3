import Telemetry.Metric.Error

/-
  Inflating a raw deflate stream (RFC 1951) into at most a given number of bytes.

  Blocks are stored, fixed-Huffman or dynamic-Huffman. A dynamic block describes at most 286
  literal/length and 30 distance codes. Its code-length code must be complete; its
  literal/length and distance codes must be complete too, except that one may have no code
  at all or a single code of length one. A length, distance or code-length symbol outside its
  alphabet, an early end of input, a stored block whose length check fails and the block type
  `3` make the stream corrupt. A distance that reaches before the
  first output byte reads zeros, as from a fresh window. Output stops, without reading on,
  once it passes the limit.

  Every loop is driven by an explicit fuel: a block and a symbol consume at least one bit,
  so fuel equal to the number of input bits (plus a little) never runs out on any input.
-/

namespace Telemetry

namespace Inflate

/-- A position in the input, counted in bits, least significant bit of each byte first. -/
structure Bits where
  data : ByteArray
  pos : Nat

namespace Bits

/-- Bits left in the input. -/
def remaining (b : Bits) : Nat := b.data.size * 8 - b.pos

/-- Reads `n` bits, least significant first, as a number. -/
def read (b : Bits) (n : Nat) : Option (Nat × Bits) :=
  if b.pos + n > b.data.size * 8 then none
  else
    let v := (List.range n).foldl (fun acc i =>
      let p := b.pos + i
      acc ||| (((b.data.get! (p / 8)).toNat >>> (p % 8)) &&& 1) <<< i) 0
    some (v, { b with pos := b.pos + n })

/-- Skips to the next byte boundary. -/
def align (b : Bits) : Bits := { b with pos := (b.pos + 7) / 8 * 8 }

end Bits

/-- A canonical Huffman code: how many codes of each length `0 ..= 15`, and the symbols in
code order. -/
structure Huffman where
  counts : Array Nat
  symbols : Array Nat

namespace Huffman

/-- Builds the code of a list of code lengths. A code must be complete; when `sparse`, it
may also have no code at all or a single code of length one. -/
def ofLengths (sparse : Bool) (lengths : Array Nat) : Option Huffman :=
  let counts := lengths.foldl (fun (c : Array Nat) l => c.modify l (· + 1)) (Array.replicate 16 0)
  let used := lengths.foldl (fun n l => if l == 0 then n else n + 1) 0
  -- Kraft sum in units of 2^-15
  let total := (List.range 15).foldl (fun t i => t + counts.getD (i + 1) 0 * Nat.pow 2 (14 - i)) 0
  let allowed := total == Nat.pow 2 15 ||
    (sparse && (used == 0 || (used == 1 && counts.getD 1 0 == 1)))
  if !allowed then none
  else
    let symbols := (List.range 16).foldl (fun (acc : Array Nat) len =>
      if len == 0 then acc
      else (List.range lengths.size).foldl (fun acc s =>
        if lengths.getD s 0 == len then acc.push s else acc) acc) #[]
    some ⟨counts, symbols⟩

/-- Reads one symbol, bit by bit, through lengths `len ..= 15`. -/
def decodeFrom (h : Huffman) (b : Bits) (code first index : Nat) : Nat → Nat → Option (Nat × Bits)
  | 0, _ => none
  | fuel + 1, len =>
    if len > 15 then none
    else
      match b.read 1 with
      | none => none
      | some (bit, b) =>
        let code := code ||| bit
        let count := h.counts.getD len 0
        if code < first + count then
          (h.symbols[index + (code - first)]?).map (·, b)
        else h.decodeFrom b (code <<< 1) ((first + count) <<< 1) (index + count) fuel (len + 1)

/-- Reads one symbol. -/
def decode (h : Huffman) (b : Bits) : Option (Nat × Bits) := h.decodeFrom b 0 0 0 16 1

end Huffman

/-- Base lengths of length symbols `257 ..= 285`. -/
def lengthBase : Array Nat :=
  #[3, 4, 5, 6, 7, 8, 9, 10, 11, 13, 15, 17, 19, 23, 27, 31, 35, 43, 51, 59, 67, 83, 99, 115,
    131, 163, 195, 227, 258]

/-- Extra bits of length symbols. -/
def lengthExtra : Array Nat :=
  #[0, 0, 0, 0, 0, 0, 0, 0, 1, 1, 1, 1, 2, 2, 2, 2, 3, 3, 3, 3, 4, 4, 4, 4, 5, 5, 5, 5, 0]

/-- Base distances of distance symbols `0 ..= 29`. -/
def distBase : Array Nat :=
  #[1, 2, 3, 4, 5, 7, 9, 13, 17, 25, 33, 49, 65, 97, 129, 193, 257, 385, 513, 769, 1025, 1537,
    2049, 3073, 4097, 6145, 8193, 12289, 16385, 24577]

/-- Extra bits of distance symbols. -/
def distExtra : Array Nat :=
  #[0, 0, 0, 0, 1, 1, 2, 2, 3, 3, 4, 4, 5, 5, 6, 6, 7, 7, 8, 8, 9, 9, 10, 10, 11, 11, 12, 12,
    13, 13]

/-- Why inflating stopped early. -/
inductive Stop where
  | corrupt
  /-- The output passed the limit. -/
  | full

/-- Output so far, with the limit it may not pass. -/
structure Sink where
  out : ByteArray
  limit : Nat

namespace Sink

/-- Appends a byte; `none` once the output passes the limit. -/
def push (s : Sink) (b : UInt8) : Except Stop Sink :=
  let out := s.out.push b
  if out.size > s.limit then .error .full else .ok { s with out }

/-- Copies `len` bytes from `dist` back, one at a time so that copies may overlap their own
output; bytes before the start read as zero. -/
def copy (s : Sink) (dist : Nat) : Nat → Except Stop Sink
  | 0 => .ok s
  | len + 1 => do
    let n := s.out.size
    let b := if dist ≤ n then s.out.get! (n - dist) else 0
    let s ← s.push b
    s.copy dist len

end Sink

/-- Lifts a missing read to a corrupt stream. -/
def need (o : Option α) : Except Stop α :=
  match o with
  | some a => .ok a
  | none => .error .corrupt

/-- What one length/literal symbol did. -/
inductive Step where
  /-- It ended the block; reading goes on here. -/
  | blockEnd (b : Bits)
  /-- It added output. -/
  | more (b : Bits) (s : Sink)

/-- Decodes one length/literal symbol and applies it. -/
def symbol (lit dist : Huffman) (b : Bits) (s : Sink) : Except Stop Step := do
  let (sym, b) ← need (lit.decode b)
  if sym < 256 then pure (.more b (← s.push sym.toUInt8))
  else if sym == 256 then pure (.blockEnd b)
  else
    let i := sym - 257
    let base ← need lengthBase[i]?
    let (extra, b) ← need (b.read (lengthExtra.getD i 0))
    let (dsym, b) ← need (dist.decode b)
    let dbase ← need distBase[dsym]?
    let (dextra, b) ← need (b.read (distExtra.getD dsym 0))
    pure (.more b (← s.copy (dbase + dextra) (base + extra)))

/-- Decodes symbols until the end-of-block symbol. -/
def codes (lit dist : Huffman) : Nat → Bits → Sink → Except Stop (Bits × Sink)
  | 0, _, _ => .error .corrupt
  | fuel + 1, b, s =>
    match symbol lit dist b s with
    | .error e => .error e
    | .ok (.blockEnd b) => .ok (b, s)
    | .ok (.more b s) => codes lit dist fuel b s

/-- The fixed literal/length code. -/
def fixedLit : Option Huffman :=
  Huffman.ofLengths false ((Array.range 288).map fun s =>
    if s < 144 then 8 else if s < 256 then 9 else if s < 280 then 7 else 8)

/-- The fixed distance code. -/
def fixedDist : Option Huffman := Huffman.ofLengths false (Array.replicate 32 5)

/-- Order in which code-length code lengths are sent. -/
def lengthOrder : List Nat := [16, 17, 18, 0, 8, 7, 9, 6, 10, 5, 11, 4, 12, 3, 13, 2, 14, 1, 15]

/-- Reads `total` code lengths with the code-length code. -/
def readLengths (h : Huffman) (total : Nat) : Nat → Bits → Array Nat → Except Stop (Array Nat × Bits)
  | 0, _, _ => .error .corrupt
  | fuel + 1, b, acc =>
    if acc.size ≥ total then
      if acc.size == total then .ok (acc, b) else .error .corrupt
    else do
      let (sym, b) ← need (h.decode b)
      if sym < 16 then readLengths h total fuel b (acc.push sym)
      else if sym == 16 then
        let prev ← need acc.back?
        let (r, b) ← need (b.read 2)
        readLengths h total fuel b (acc ++ Array.replicate (3 + r) prev)
      else if sym == 17 then
        let (r, b) ← need (b.read 3)
        readLengths h total fuel b (acc ++ Array.replicate (3 + r) 0)
      else
        let (r, b) ← need (b.read 7)
        readLengths h total fuel b (acc ++ Array.replicate (11 + r) 0)

/-- Reads the code descriptions of a dynamic block. -/
def dynamicCodes (b : Bits) : Except Stop (Huffman × Huffman × Bits) := do
  let (hlit, b) ← need (b.read 5)
  let (hdist, b) ← need (b.read 5)
  let (hclen, b) ← need (b.read 4)
  let (cl, b) ← (lengthOrder.take (hclen + 4)).foldlM (fun (acc, b) pos => do
    let (l, b) ← need (b.read 3)
    pure (acc.set! pos l, b)) (Array.replicate 19 0, b)
  let nlit := hlit + 257
  let ndist := hdist + 1
  if nlit > 286 || ndist > 30 then .error .corrupt
  let clCode ← need (Huffman.ofLengths false cl)
  let (lens, b) ← readLengths clCode (nlit + ndist) (b.remaining + 2) b #[]
  let lit ← need (Huffman.ofLengths true (lens.extract 0 nlit))
  let dist ← need (Huffman.ofLengths true (lens.extract nlit (nlit + ndist)))
  pure (lit, dist, b)

/-- Copies a stored block. -/
def stored (b : Bits) (s : Sink) : Except Stop (Bits × Sink) := do
  let b := b.align
  let (len, b) ← need (b.read 16)
  let (nlen, b) ← need (b.read 16)
  if len != 0xffff - nlen then .error .corrupt
  else
    let start := b.pos / 8
    if start + len > b.data.size then .error .corrupt
    else
      let s ← (List.range len).foldlM (fun s i => s.push (b.data.get! (start + i))) s
      pure ({ b with pos := b.pos + 8 * len }, s)

/-- Inflates blocks until the final one. -/
def blocks : Nat → Bits → Sink → Except Stop (Bits × Sink)
  | 0, _, _ => .error .corrupt
  | fuel + 1, b, s => do
    let (final, b) ← need (b.read 1)
    let (type, b) ← need (b.read 2)
    let (b, s) ← match type with
      | 0 => stored b s
      | 1 => do
        let lit ← need fixedLit
        let dist ← need fixedDist
        codes lit dist (b.remaining + 1) b s
      | 2 => do
        let (lit, dist, b) ← dynamicCodes b
        codes lit dist (b.remaining + 1) b s
      | _ => .error .corrupt
    if final == 1 then .ok (b, s) else blocks fuel b s

/-- Inflates the deflate stream starting at byte `start`: the output and the byte position
just after the stream. -/
def inflate (data : ByteArray) (start limit : Nat) : Except Stop (ByteArray × Nat) := do
  let b : Bits := ⟨data, start * 8⟩
  let (b, s) ← blocks (b.remaining + 1) b ⟨ByteArray.empty, limit⟩
  pure (s.out, (b.pos + 7) / 8)

end Inflate

end Telemetry

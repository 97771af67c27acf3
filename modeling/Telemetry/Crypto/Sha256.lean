/-
  SHA-256 (FIPS 180-4) over byte lists, and HMAC-SHA-256 (RFC 2104).

  The message is padded with `0x80`, zeros and its bit length as a big-endian 64-bit number
  to a multiple of 64 bytes; each 64-byte block updates the eight-word state by 64 rounds
  of the compression function. HMAC hashes `(K ⊕ opad) ‖ H((K ⊕ ipad) ‖ m)`, where a key
  longer than a block is first hashed and every key is zero-padded to a block.
-/

namespace Telemetry

namespace Sha256

/-- The round constants. -/
def roundConstants : Array UInt32 := #[
  0x428a2f98, 0x71374491, 0xb5c0fbcf, 0xe9b5dba5, 0x3956c25b, 0x59f111f1, 0x923f82a4, 0xab1c5ed5,
  0xd807aa98, 0x12835b01, 0x243185be, 0x550c7dc3, 0x72be5d74, 0x80deb1fe, 0x9bdc06a7, 0xc19bf174,
  0xe49b69c1, 0xefbe4786, 0x0fc19dc6, 0x240ca1cc, 0x2de92c6f, 0x4a7484aa, 0x5cb0a9dc, 0x76f988da,
  0x983e5152, 0xa831c66d, 0xb00327c8, 0xbf597fc7, 0xc6e00bf3, 0xd5a79147, 0x06ca6351, 0x14292967,
  0x27b70a85, 0x2e1b2138, 0x4d2c6dfc, 0x53380d13, 0x650a7354, 0x766a0abb, 0x81c2c92e, 0x92722c85,
  0xa2bfe8a1, 0xa81a664b, 0xc24b8b70, 0xc76c51a3, 0xd192e819, 0xd6990624, 0xf40e3585, 0x106aa070,
  0x19a4c116, 0x1e376c08, 0x2748774c, 0x34b0bcb5, 0x391c0cb3, 0x4ed8aa4a, 0x5b9cca4f, 0x682e6ff3,
  0x748f82ee, 0x78a5636f, 0x84c87814, 0x8cc70208, 0x90befffa, 0xa4506ceb, 0xbef9a3f7, 0xc67178f2]

/-- The initial state. -/
def initial : Array UInt32 :=
  #[0x6a09e667, 0xbb67ae85, 0x3c6ef372, 0xa54ff53a, 0x510e527f, 0x9b05688c, 0x1f83d9ab, 0x5be0cd19]

/-- Rotation right. -/
def rotr (x : UInt32) (n : UInt32) : UInt32 := (x >>> n) ||| (x <<< (32 - n))

/-- A big-endian word from four bytes. -/
def word (a b c d : UInt8) : UInt32 :=
  (a.toUInt32 <<< 24) ||| (b.toUInt32 <<< 16) ||| (c.toUInt32 <<< 8) ||| d.toUInt32

/-- The big-endian words of a block (four bytes each). -/
def words : List UInt8 → List UInt32
  | a :: b :: c :: d :: rest => word a b c d :: words rest
  | _ => []

/-- The 64-word message schedule of a block. -/
def schedule (ws : List UInt32) : Array UInt32 :=
  (List.range 48).foldl (fun (w : Array UInt32) i =>
    let t := i + 16
    let w15 := w.getD (t - 15) 0
    let w2 := w.getD (t - 2) 0
    let s0 := rotr w15 7 ^^^ rotr w15 18 ^^^ (w15 >>> 3)
    let s1 := rotr w2 17 ^^^ rotr w2 19 ^^^ (w2 >>> 10)
    w.push (w.getD (t - 16) 0 + s0 + w.getD (t - 7) 0 + s1)) ws.toArray

/-- One compression of a 64-byte block into the state. -/
def compress (h : Array UInt32) (block : List UInt8) : Array UInt32 :=
  let w := schedule (words block)
  let init := (h.getD 0 0, h.getD 1 0, h.getD 2 0, h.getD 3 0, h.getD 4 0, h.getD 5 0,
    h.getD 6 0, h.getD 7 0)
  let (a, b, c, d, e, f, g, hh) := (List.range 64).foldl (fun st i =>
    let (a, b, c, d, e, f, g, hh) := st
    let s1 := rotr e 6 ^^^ rotr e 11 ^^^ rotr e 25
    let ch := (e &&& f) ^^^ ((~~~ e) &&& g)
    let t1 := hh + s1 + ch + roundConstants.getD i 0 + w.getD i 0
    let s0 := rotr a 2 ^^^ rotr a 13 ^^^ rotr a 22
    let maj := (a &&& b) ^^^ (a &&& c) ^^^ (b &&& c)
    let t2 := s0 + maj
    (t1 + t2, a, b, c, d + t1, e, f, g)) init
  #[h.getD 0 0 + a, h.getD 1 0 + b, h.getD 2 0 + c, h.getD 3 0 + d, h.getD 4 0 + e,
    h.getD 5 0 + f, h.getD 6 0 + g, h.getD 7 0 + hh]

/-- Big-endian bytes of a number, `n` of them. -/
def bigEndian (v : Nat) (n : Nat) : List UInt8 :=
  (List.range n).reverse.map fun i => (v / Nat.pow 256 i % 256).toUInt8

/-- The message padded to whole blocks. -/
def pad (msg : List UInt8) : List UInt8 :=
  let len := msg.length
  let zeros := (119 - len % 64) % 64
  msg ++ [0x80] ++ List.replicate zeros 0 ++ bigEndian (8 * len) 8

/-- Compresses consecutive 64-byte blocks. -/
def blocks (h : Array UInt32) : Nat → List UInt8 → Array UInt32
  | 0, _ => h
  | n + 1, bs => if bs.isEmpty then h else blocks (compress h (bs.take 64)) n (bs.drop 64)

/-- The 32-byte digest. -/
def digest (msg : List UInt8) : List UInt8 :=
  let padded := pad msg
  let h := blocks initial (padded.length / 64) padded
  h.toList.flatMap fun x => bigEndian x.toNat 4

/-- HMAC-SHA-256 of `msg` under `key`. -/
def hmac (key msg : List UInt8) : List UInt8 :=
  let k := if key.length > 64 then digest key else key
  let k := k ++ List.replicate (64 - k.length) 0
  let inner := digest (k.map (· ^^^ 0x36) ++ msg)
  digest (k.map (· ^^^ 0x5c) ++ inner)

end Sha256

end Telemetry

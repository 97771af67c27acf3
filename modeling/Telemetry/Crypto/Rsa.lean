import Telemetry.Crypto.Der
import Telemetry.Crypto.Pem
import Telemetry.Crypto.Sha256

/-
  RSA keys and RSA-OAEP with SHA-256 and MGF1-SHA-256 (RFC 8017), label empty.

  Keys come from PEM: a private key as PKCS#1 (`RSA PRIVATE KEY`) or PKCS#8 (`PRIVATE KEY`,
  algorithm `rsaEncryption` with NULL parameters), two-prime only; a public key as
  SubjectPublicKeyInfo (`PUBLIC KEY`) or PKCS#1 (`RSA PUBLIC KEY`). A public key has an odd
  modulus of at most 4096 bits and an odd exponent from 2 to `2^33 - 1`, below the modulus.
  A private key has such a public part, save that its modulus may be longer, two primes
  above one whose product is the modulus, and a private exponent `d` with `d·e ≡ 1` modulo
  each prime less one. A PKCS#8 document may carry, after the key, attributes `[0]`, then a
  public key `[1]` (present exactly in version 1), then constructed context-specific
  extensions of one value each. The key size `k` is the modulus length in bytes.

  Encryption pads a message of at most `k - 66` bytes; decryption of a block refuses a number
  not below the modulus, undoes the exponent through the primes (checking the result by
  encrypting it again) and accepts only a well-formed padding.
-/

namespace Telemetry

namespace Rsa

/-- `b^e mod m` by squaring, over the bits of `e`. -/
def powMod (b e m : Nat) : Nat :=
  let rec go (base exp acc : Nat) : Nat → Nat
    | 0 => acc
    | fuel + 1 =>
      if exp == 0 then acc
      else go (base * base % m) (exp / 2) (if exp % 2 == 1 then acc * base % m else acc) fuel
  if m == 1 then 0 else go (b % m) e 1 (e.log2 + 1)

/-- The inverse of `a` modulo `m`, when they are coprime. -/
def invMod (a m : Nat) : Option Nat :=
  let rec go (r0 r1 : Nat) (s0 s1 : Int) : Nat → Option Nat
    | 0 => none
    | fuel + 1 =>
      if r1 == 0 then (if r0 == 1 then some (s0 % m).toNat else none)
      else go r1 (r0 % r1) s1 (s0 - (r0 / r1 : Nat) * s1) fuel
  if m == 0 then none else go (a % m) m 1 0 (2 * m.log2 + 4)

/-- A public key. -/
structure PublicKey where
  n : Nat
  e : Nat

/-- A two-prime private key. -/
structure PrivateKey where
  n : Nat
  e : Nat
  d : Nat
  p : Nat
  q : Nat

/-- The modulus length in bytes. -/
def size (n : Nat) : Nat := (n.log2 + 8) / 8

/-- Why an RSA operation failed, in the words of its report. -/
inductive Fault where
  | decryption
  | messageTooLong
  | modulusTooLarge
  | exponentTooSmall
  | exponentTooLarge
  | invalidModulus
  | invalidExponent
  | invalidPrime
  | internal
  deriving DecidableEq, Repr

namespace Fault

/-- The text of a fault. -/
def text : Fault → String
  | decryption => "decryption error"
  | messageTooLong => "message too long"
  | modulusTooLarge => "modulus too large"
  | exponentTooSmall => "public exponent too small"
  | exponentTooLarge => "public exponent too large"
  | invalidModulus => "invalid modulus"
  | invalidExponent => "invalid exponent"
  | invalidPrime => "invalid prime value"
  | internal => "internal error"

end Fault

/-- The shape the public part of every key must have: an odd modulus above the exponent,
and an odd exponent from 2 to `2^33 - 1`. The first rule broken is reported. -/
def checkShape (n e : Nat) : Except Fault Unit :=
  if e ≥ Nat.pow 2 64 then .error .exponentTooLarge
  else if e ≥ n || n % 2 == 0 then .error .invalidModulus
  else if e % 2 == 0 then .error .invalidExponent
  else if e < 2 then .error .exponentTooSmall
  else if e > Nat.pow 2 33 - 1 then .error .exponentTooLarge
  else .ok ()

/-- A public key read from a file has, besides its shape, a modulus of at most 4096 bits. -/
def checkPublic (n e : Nat) : Except Fault Unit :=
  if n.log2 + 1 > 4096 && n != 0 then .error .modulusTooLarge else checkShape n e

/-- The checks a two-prime private key must pass: the shape of its public part (its
modulus may exceed 4096 bits), primes above one that multiply to the modulus, and
`d·e ≡ 1` modulo each prime less one. -/
def checkPrivate (n e d p q : Nat) : Except Fault Unit := do
  checkShape n e
  if p ≤ 1 || q ≤ 1 then throw .invalidPrime
  if p * q != n then throw .invalidModulus
  if (d * e) % (p - 1) != 1 || (d * e) % (q - 1) != 1 then throw .invalidExponent

/-! ### Key files -/

/-- DER of the `rsaEncryption` algorithm identifier's object identifier. -/
def rsaOid : List UInt8 := [0x2a, 0x86, 0x48, 0x86, 0xf7, 0x0d, 0x01, 0x01, 0x01]

/-- Reads an algorithm identifier that must be `rsaEncryption` with NULL parameters. -/
def rsaAlgorithm (bs : List UInt8) : Option (List UInt8) := do
  let (content, rest) ← Der.expect Der.tagSequence bs
  let (oid, params) ← Der.expect Der.tagOid content
  if oid != rsaOid then none
  let (null, tail) ← Der.expect Der.tagNull params
  if !null.isEmpty || !tail.isEmpty then none
  pure rest

/-- Reads a PKCS#1 private key (a whole DER document). -/
def pkcs1Private (bs : List UInt8) : Option PrivateKey := do
  let (content, rest) ← Der.expect Der.tagSequence bs
  if !rest.isEmpty then none
  let (version, c) ← Der.unsigned content
  if version != 0 then none
  let (n, c) ← Der.unsigned c
  let (e, c) ← Der.unsigned c
  let (d, c) ← Der.unsigned c
  let (p, c) ← Der.unsigned c
  let (q, c) ← Der.unsigned c
  let (_, c) ← Der.unsigned c
  let (_, c) ← Der.unsigned c
  let (_, c) ← Der.unsigned c
  if !c.isEmpty then none
  match checkPrivate n e d p q with
  | .ok _ => pure ⟨n, e, d, p, q⟩
  | .error _ => none

/-- A context-specific tag. -/
def isContextTag (tag : UInt8) : Bool := tag &&& 0xc0 == 0x80

/-- Skips the context-specific fields numbered below `[1]` at the front. -/
def skipAttributes : Nat → List UInt8 → Option (List UInt8)
  | 0, _ => none
  | fuel + 1, bs =>
    match bs with
    | tag :: _ =>
      if isContextTag tag && tag &&& 0x1f == 0 then do
        let (_, _, rest) ← Der.value bs
        skipAttributes fuel rest
      else some bs
    | [] => some []

/-- Checks that every field is a constructed context-specific field holding exactly one
value. -/
def extensions : Nat → List UInt8 → Bool
  | _, [] => true
  | 0, _ => false
  | fuel + 1, bs =>
    match Der.value bs with
    | some (tag, content, rest) =>
      isContextTag tag && tag &&& 0x20 != 0 &&
        (match Der.value content with
          | some (_, _, []) => true
          | _ => false) &&
        extensions fuel rest
    | none => false

/-- Reads the fields after the key of a PKCS#8 document: attributes, then a public key
`[1]` if one comes next (a primitive BIT STRING with no unused bits), then extensions.
Answers whether the public key is there. -/
def trailingFields (bs : List UInt8) : Option Bool := do
  let rest ← skipAttributes (bs.length + 1) bs
  match rest with
  | tag :: _ =>
    if isContextTag tag && tag &&& 0x1f == 1 then
      let (_, content, after) ← Der.value rest
      if tag &&& 0x20 != 0 then none
      let _ ← Der.bitStringBytes content
      if extensions (after.length + 1) after then some true else none
    else if extensions (rest.length + 1) rest then some false else none
  | [] => some false

/-- Reads a PKCS#8 private key (a whole DER document). -/
def pkcs8Private (bs : List UInt8) : Option PrivateKey := do
  let (content, rest) ← Der.expect Der.tagSequence bs
  if !rest.isEmpty then none
  let (version, c) ← Der.unsigned content
  if version > 1 then none
  let c ← rsaAlgorithm c
  let (inner, c) ← Der.expect Der.tagOctetString c
  let hasPublic ← trailingFields c
  if (version == 1) != hasPublic then none
  pkcs1Private inner

/-- Reads a PKCS#1 public key (a whole DER document). -/
def pkcs1Public (bs : List UInt8) : Option PublicKey := do
  let (content, rest) ← Der.expect Der.tagSequence bs
  if !rest.isEmpty then none
  let (n, c) ← Der.unsigned content
  let (e, c) ← Der.unsigned c
  if !c.isEmpty then none
  match checkPublic n e with
  | .ok _ => pure ⟨n, e⟩
  | .error _ => none

/-- Reads a SubjectPublicKeyInfo (a whole DER document). -/
def spkiPublic (bs : List UInt8) : Option PublicKey := do
  let (content, rest) ← Der.expect Der.tagSequence bs
  if !rest.isEmpty then none
  let c ← rsaAlgorithm content
  let (bits, c) ← Der.expect Der.tagBitString c
  if !c.isEmpty then none
  pkcs1Public (← Der.bitStringBytes bits)

/-- Reads a private key from PEM text, PKCS#1 or PKCS#8. -/
def PrivateKey.ofPem? (text : String) : Option PrivateKey :=
  match Pem.decode? text with
  | some ("RSA PRIVATE KEY", der) => pkcs1Private der
  | some ("PRIVATE KEY", der) => pkcs8Private der
  | _ => none

/-- Reads a public key from PEM text, SubjectPublicKeyInfo or PKCS#1. -/
def PublicKey.ofPem? (text : String) : Option PublicKey :=
  match Pem.decode? text with
  | some ("PUBLIC KEY", der) => spkiPublic der
  | some ("RSA PUBLIC KEY", der) => pkcs1Public der
  | _ => none

/-! ### OAEP -/

/-- Big-endian bytes of `v`, exactly `len` of them. -/
def toBytes (v len : Nat) : List UInt8 :=
  (List.range len).reverse.map fun i => (v / Nat.pow 256 i % 256).toUInt8

/-- The MGF1-SHA-256 mask of `len` bytes from a seed. -/
def mgf1 (seed : List UInt8) (len : Nat) : List UInt8 :=
  ((List.range (len / 32 + 1)).flatMap fun i => Sha256.digest (seed ++ toBytes i 4)).take len

/-- Bytewise exclusive or. -/
def xorBytes (a b : List UInt8) : List UInt8 := List.zipWith (· ^^^ ·) a b

/-- The hash of the empty label. -/
def labelHash : List UInt8 := Sha256.digest []

/-- The encoded block of a message with a given seed, `k` bytes long. -/
def oaepEncode (k : Nat) (seed msg : List UInt8) : List UInt8 :=
  let db := labelHash ++ List.replicate (k - msg.length - 66) 0 ++ [1] ++ msg
  let maskedDb := xorBytes db (mgf1 seed (k - 33))
  let maskedSeed := xorBytes seed (mgf1 maskedDb 32)
  0 :: maskedSeed ++ maskedDb

/-- The message of an encoded block, if its padding is well formed. -/
def oaepDecode (k : Nat) (em : List UInt8) : Option (List UInt8) :=
  match em with
  | [] => none
  | first :: rest =>
    let maskedSeed := rest.take 32
    let maskedDb := rest.drop 32
    let seed := xorBytes maskedSeed (mgf1 maskedDb 32)
    let db := xorBytes maskedDb (mgf1 seed (k - 33))
    let afterHash := db.drop 32
    let zeros := afterHash.takeWhile (· == 0)
    match afterHash.drop zeros.length with
    | 1 :: msg => if first == 0 && db.take 32 == labelHash then some msg else none
    | _ => none

/-- A fixed seed: outputs never show ciphertext bytes, only their length. -/
def seed : List UInt8 := List.replicate 32 0x5a

/-- Encrypts one block. -/
def PublicKey.encryptBlock (key : PublicKey) (msg : List UInt8) : Except Fault (List UInt8) := do
  checkShape key.n key.e
  let k := size key.n
  if msg.length + 66 > k then throw .messageTooLong
  let m := Der.bigEndian (oaepEncode k seed msg)
  pure (toBytes (powMod m key.e key.n) k)

/-- The exponent undone through the two primes when they allow it, else directly. -/
def PrivateKey.raw (key : PrivateKey) (c : Nat) : Nat :=
  if key.p ≤ 1 || key.q ≤ 1 then powMod c key.d key.n
  else
    match invMod key.q key.p with
    | none => powMod c key.d key.n
    | some qinv =>
      let m1 := powMod c (key.d % (key.p - 1)) key.p
      let m2 := powMod c (key.d % (key.q - 1)) key.q
      let h := ((m1 + key.p * (m2 / key.p + 1) - m2) % key.p) * qinv % key.p
      m2 + key.q * h

/-- Decrypts one block of exactly `k` bytes. -/
def PrivateKey.decryptBlock (key : PrivateKey) (block : List UInt8) : Except Fault (List UInt8) := do
  let k := size key.n
  let c := Der.bigEndian block
  if c ≥ key.n then throw .decryption
  let m := key.raw c
  if powMod m key.e key.n != c then throw .internal
  if m ≥ Nat.pow 256 k then throw .internal
  if k < 66 then throw .decryption
  match oaepDecode k (toBytes m k) with
  | some msg => pure msg
  | none => throw .decryption

/-- The public half of a private key. -/
def PrivateKey.toPublic (key : PrivateKey) : PublicKey := ⟨key.n, key.e⟩

/-- Splits into chunks of `len` bytes (the last may be shorter). -/
def chunks (len : Nat) (bs : List UInt8) : List (List UInt8) :=
  let rec go (bs : List UInt8) : Nat → List (List UInt8)
    | 0 => []
    | fuel + 1 => if bs.isEmpty then [] else bs.take len :: go (bs.drop len) fuel
  go bs (bs.length + 1)

end Rsa

end Telemetry

import Telemetry.Metric.Record
import Telemetry.Crypto.Sha256
import Telemetry.Text.Hex

/-
  Record signatures: the lower-case hex HMAC-SHA-256 of a value's canonical message under a
  shared secret.

  `verify` accepts a record without hash, refuses one whose value is unreadable or whose
  trimmed hash is not hex, and otherwise compares the hash with the signature of the
  canonical message; only the six-decimal form of a gauge is signed, so values that agree to
  six decimals share a signature. A `Signer` holds a secret when it is not empty; without one
  it still signs, with the empty key.
-/

namespace Telemetry

namespace Signature

/-- The hex signature of a message. -/
def sign (message secret : String) : String :=
  Hex.encode (Sha256.hmac (Utf8.encode secret) (Utf8.encode message))

/-- Checks a record's hash against its canonical message. -/
def verify (r : Record) (secret : String) : Bool :=
  if r.hash.isEmpty then true
  else
    match r.toValue with
    | .error _ => false
    | .ok v =>
      match Hex.decode? (Text.trim r.hash) with
      | none => false
      | some tag => tag == Sha256.hmac (Utf8.encode secret) (Utf8.encode (v.canonicalMessage r.id))

end Signature

/-- Signs and checks records with an optional shared secret. -/
structure Signer where
  secret : Option String := none
  deriving Inhabited

namespace Signer

/-- A signer for a configured secret; the empty secret counts as none. -/
def new (secret : Option String) : Signer :=
  { secret := secret.filter (!·.isEmpty) }

/-- A secret is configured. -/
def isKeyed (s : Signer) : Bool := s.secret.isSome

/-- Signs with the secret, or with the empty key. -/
def sign (s : Signer) (message : String) : String := Signature.sign message (s.secret.getD "")

/-- Verifies with the secret, or with the empty key. -/
def verify (s : Signer) (r : Record) : Bool := Signature.verify r (s.secret.getD "")

end Signer

namespace Value

/-- The signed wire record of a stored value. -/
def toRecord (v : Value) (name : String) (signer : Signer) : Record :=
  v.toRecordWith name (signer.sign (v.canonicalMessage name))

end Value

end Telemetry

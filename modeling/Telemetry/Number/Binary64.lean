/-
  IEEE 754 binary64 numbers, kept as their 64-bit pattern.

  A finite double is `±m · 2^e` with `m < 2^53`; `view` recovers that form and `ofRatio`
  rounds an exact ratio `num / den · 2^shift` to the nearest double, ties to the even
  significand, with infinity past the largest finite value. The arithmetic below (`mul`,
  `div`, `add`, `ofNat`) is defined through `ofRatio` on the exact result, which is what
  IEEE 754 prescribes for round-to-nearest, so every operation is ordinary `Nat` arithmetic.
-/

namespace Telemetry

/-- A binary64 floating-point number, stored as its bit pattern. -/
structure Binary64 where
  bits : UInt64
  deriving DecidableEq, Inhabited

namespace Binary64

/-- Bit pattern of the sign. -/
def signMask : UInt64 := 0x8000000000000000

/-- Width of the stored fraction. -/
def fractionBits : Nat := 52

/-- The implicit leading bit of a normal significand, `2^52`. -/
def hidden : Nat := Nat.pow 2 52

/-- The sign bit is set (negative numbers, `-0` and negative NaNs). -/
def sign (x : Binary64) : Bool := x.bits >>> 63 == 1

/-- The biased exponent field, `0 ..= 2047`. -/
def exponentField (x : Binary64) : Nat := ((x.bits >>> 52) &&& 0x7ff).toNat

/-- The stored fraction field, below `2^52`. -/
def fractionField (x : Binary64) : Nat := (x.bits &&& 0xfffffffffffff).toNat

/-- Neither infinite nor NaN. -/
def isFinite (x : Binary64) : Bool := x.exponentField != 2047

/-- Not a number. -/
def isNaN (x : Binary64) : Bool := x.exponentField == 2047 && x.fractionField != 0

/-- Positive or negative zero. -/
def isZero (x : Binary64) : Bool := x.exponentField == 0 && x.fractionField == 0

/-- The three shapes of a double. -/
inductive View where
  /-- `(-1)^neg · m · 2^e`, with `m < 2^53`. -/
  | finite (neg : Bool) (m : Nat) (e : Int)
  | infinite (neg : Bool)
  | nan

/-- A double as sign, integer significand and binary exponent. -/
def view (x : Binary64) : View :=
  let f := x.exponentField
  if f == 2047 then
    if x.fractionField == 0 then .infinite x.sign else .nan
  else if f == 0 then .finite x.sign x.fractionField (-1074)
  else .finite x.sign (x.fractionField + hidden) ((f : Int) - 1075)

/-- Signed zero. -/
def zero (neg : Bool) : Binary64 := ⟨if neg then signMask else 0⟩

/-- Signed infinity. -/
def infinity (neg : Bool) : Binary64 := ⟨(if neg then signMask else 0) ||| 0x7ff0000000000000⟩

/-- The quiet NaN with an empty payload. -/
def nan : Binary64 := ⟨0x7ff8000000000000⟩

/-- The same number with the other sign. -/
def neg (x : Binary64) : Binary64 := ⟨x.bits ^^^ signMask⟩

/-- The magnitude, sign cleared. -/
def abs (x : Binary64) : Binary64 := ⟨x.bits &&& 0x7fffffffffffffff⟩

/-- `num / den` as an exact quotient `2^shift`-scaled: the pair `(N, D)` with
`N / D = num / den · 2^shift`. -/
def scaled (num den : Nat) (shift : Int) : Nat × Nat :=
  if 0 ≤ shift then (num <<< shift.toNat, den) else (num, den <<< (-shift).toNat)

/-- `⌊log2 (num / den)⌋` for positive `num` and `den`. -/
def floorLog2 (num den : Nat) : Int :=
  let guess : Int := (num.log2 : Int) - (den.log2 : Int)
  let (n, d) := scaled num den (-guess)
  if n < d then guess - 1 else guess

/-- `q` rounded by the remainder `r` of a division by `d`: up past a half, and at exactly a
half up only when `q` is odd. -/
def roundHalfEven (q r d : Nat) : Nat :=
  if 2 * r > d then q + 1
  else if 2 * r == d && q % 2 == 1 then q + 1
  else q

/-- Packs a rounded significand `q ≤ 2^53` at exponent `e` (value `q · 2^e`, `e ≥ -1074`). -/
def pack (neg : Bool) (q : Nat) (e : Int) : Binary64 :=
  let (q, e) := if q == 2 * hidden then (hidden, e + 1) else (q, e)
  let s : UInt64 := if neg then signMask else 0
  if q < hidden then ⟨s ||| q.toUInt64⟩
  else
    let field := e + 1075
    if 2047 ≤ field then infinity neg
    else ⟨s ||| (field.toNat.toUInt64 <<< 52) ||| (q - hidden).toUInt64⟩

/-- The double nearest to `num / den · 2^shift` (ties to even), negated when `neg`;
`den` must be positive. -/
def ofRatio (neg : Bool) (num den : Nat) (shift : Int) : Binary64 :=
  if num == 0 || den == 0 then zero neg
  else
    let top := floorLog2 num den + shift
    let e : Int := max (-1074) (top - 52)
    let (n, d) := scaled num den (shift - e)
    pack neg (roundHalfEven (n / d) (n % d) d) e

/-- The double nearest to a natural number. -/
def ofNat (n : Nat) : Binary64 := ofRatio false n 1 0

/-- The double nearest to an integer. -/
def ofInt (i : Int) : Binary64 := ofRatio (i < 0) i.natAbs 1 0

/-- IEEE product, rounded to nearest. -/
def mul (x y : Binary64) : Binary64 :=
  let s := x.sign != y.sign
  match x.view, y.view with
  | .nan, _ => nan
  | _, .nan => nan
  | .infinite _, .finite _ m _ => if m == 0 then nan else infinity s
  | .finite _ m _, .infinite _ => if m == 0 then nan else infinity s
  | .infinite _, .infinite _ => infinity s
  | .finite _ m e, .finite _ n f => ofRatio s (m * n) 1 (e + f)

/-- IEEE quotient, rounded to nearest. -/
def div (x y : Binary64) : Binary64 :=
  let s := x.sign != y.sign
  match x.view, y.view with
  | .nan, _ => nan
  | _, .nan => nan
  | .infinite _, .infinite _ => nan
  | .infinite _, .finite _ _ _ => infinity s
  | .finite _ _ _, .infinite _ => zero s
  | .finite _ m e, .finite _ n f =>
    if n == 0 then (if m == 0 then nan else infinity s)
    else ofRatio s m n (e - f)

/-- IEEE sum, rounded to nearest; an exact zero sum of opposite signs is `+0`. -/
def add (x y : Binary64) : Binary64 :=
  match x.view, y.view with
  | .nan, _ => nan
  | _, .nan => nan
  | .infinite a, .infinite b => if a == b then infinity a else nan
  | .infinite a, .finite _ _ _ => infinity a
  | .finite _ _ _, .infinite b => infinity b
  | .finite a m e, .finite b n f =>
    let g := min e f
    let sm : Int := (if a then -1 else 1) * ((m <<< (e - g).toNat : Nat) : Int)
    let sn : Int := (if b then -1 else 1) * ((n <<< (f - g).toNat : Nat) : Int)
    let t := sm + sn
    if t == 0 then zero (a && b) else ofRatio (t < 0) t.natAbs 1 g

instance : Mul Binary64 := ⟨mul⟩
instance : Div Binary64 := ⟨div⟩
instance : Add Binary64 := ⟨add⟩
instance : Neg Binary64 := ⟨neg⟩

/-- Numeric equality: NaN equals nothing and the two zeros are equal. -/
def numEq (x y : Binary64) : Bool :=
  if x.isNaN || y.isNaN then false
  else if x.isZero && y.isZero then true
  else x.bits == y.bits

/-- Strictly below zero (so `-0` is not negative in this sense). -/
def isNegative (x : Binary64) : Bool := x.sign && !x.isZero && !x.isNaN

/-- `10^k` as the nearest double. -/
def pow10 (k : Nat) : Binary64 := ofNat (Nat.pow 10 k)

example : (ofNat 1).bits = 0x3ff0000000000000 := by decide
example : (ofRatio false 1 10 0).bits = 0x3fb999999999999a := by decide

end Binary64

end Telemetry

import Telemetry.Number.Binary64

/-
  Reading numbers from text.

  `Binary64.read?` accepts the decimal grammar `[+-] digits [. digits] [(e|E) [+-] digits]`
  with at least one digit before the exponent, plus `inf`, `infinity` and `nan` in any
  case, and rounds the exact decimal value to the nearest double. Exponent digits stop
  counting once the exponent passes `65536`, where every nonzero value is already infinite or
  zero. `readInt?` and `readNat?` accept an optional sign and at least one ASCII digit, and
  fail outside the given range.
-/

namespace Telemetry

namespace Decimal

/-- The value of a run of ASCII digits. -/
def digitsValue (cs : List Char) : Nat :=
  cs.foldl (fun acc c => acc * 10 + (c.toNat - '0'.toNat)) 0

/-- Exponent digits, saturating: once the value reaches `65536` further digits are read
but not added. -/
def exponentValue (cs : List Char) : Nat :=
  cs.foldl (fun acc c => if acc < 0x10000 then acc * 10 + (c.toNat - '0'.toNat) else acc) 0

/-- Splits an optional leading `+` or `-`: answers whether it was `-`, and the rest. -/
def splitSign : List Char → Bool × List Char
  | '-' :: rest => (true, rest)
  | '+' :: rest => (false, rest)
  | cs => (false, cs)

/-- Number of decimal digits of a positive number (`1` for zero). -/
def digitCount (n : Nat) : Nat := (toString n).length

/-- A decimal in scientific form, `digits · 10^exp`, before rounding. -/
structure Scientific where
  neg : Bool
  digits : Nat
  exp : Int

/-- Reads the decimal grammar (sign, digits, optional fraction, optional exponent). -/
def scientific? (cs : List Char) : Option Scientific :=
  let (neg, rest) := splitSign cs
  let whole := rest.takeWhile Char.isDigit
  let rest := rest.dropWhile Char.isDigit
  let (frac, rest) := match rest with
    | '.' :: r => (r.takeWhile Char.isDigit, r.dropWhile Char.isDigit)
    | r => ([], r)
  if whole.isEmpty && frac.isEmpty then none
  else
    let mantissa := digitsValue (whole ++ frac)
    match rest with
    | [] => some ⟨neg, mantissa, -(frac.length : Int)⟩
    | c :: r =>
      if c == 'e' || c == 'E' then
        let (eneg, ds) := splitSign r
        if ds.isEmpty || !ds.all Char.isDigit then none
        else
          let ev : Int := exponentValue ds
          some ⟨neg, mantissa, (if eneg then -ev else ev) - (frac.length : Int)⟩
      else none

end Decimal

namespace Binary64

/-- The double nearest to `digits · 10^exp`, negated when `neg`. Values far above the
largest double are infinite and far below half the smallest are zero. -/
def ofScientific (s : Decimal.Scientific) : Binary64 :=
  if s.digits == 0 then zero s.neg
  else
    let mag : Int := (Decimal.digitCount s.digits : Int) + s.exp
    if 311 < mag then infinity s.neg
    else if mag < -330 then zero s.neg
    else if 0 ≤ s.exp then ofRatio s.neg (s.digits * Nat.pow 10 s.exp.toNat) 1 0
    else ofRatio s.neg s.digits (Nat.pow 10 (-s.exp).toNat) 0

/-- Lower-case ASCII letters of a character list. -/
def lowerAscii (cs : List Char) : List Char := cs.map Char.toLower

/-- Reads decimal floating-point text exactly (no surrounding blanks). -/
def read? (s : String) : Option Binary64 :=
  let cs := s.toList
  let (neg, rest) := Decimal.splitSign cs
  let word := String.ofList (lowerAscii rest)
  if word == "inf" || word == "infinity" then some (infinity neg)
  else if word == "nan" then some nan
  else (Decimal.scientific? cs).map ofScientific

end Binary64

namespace Decimal

/-- Reads `[+-]digits` as an integer in `[lo, hi]`. -/
def readInt? (s : String) (lo hi : Int) : Option Int :=
  let (neg, ds) := splitSign s.toList
  if ds.isEmpty || !ds.all Char.isDigit then none
  else
    let v : Int := if neg then -(digitsValue ds : Int) else digitsValue ds
    if lo ≤ v && v ≤ hi then some v else none

/-- Reads `[+]digits` as a natural number below `bound`; a `-` is refused. -/
def readNat? (s : String) (bound : Nat) : Option Nat :=
  match s.toList with
  | '-' :: _ => none
  | cs =>
    let ds := (splitSign cs).2
    if ds.isEmpty || !ds.all Char.isDigit then none
    else
      let v := digitsValue ds
      if v < bound then some v else none

end Decimal

end Telemetry

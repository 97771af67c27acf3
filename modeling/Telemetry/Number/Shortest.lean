import Telemetry.Number.Binary64

/-
  Shortest decimal text of a double.

  A finite positive double `m · 2^e` owns the interval of reals that round to it: half a
  unit either side, a quarter below at the bottom of a binade, ends included exactly when
  `m` is even. `Binary64.shortest` walks decimal grids `10^k` from coarse to fine and stops
  at the first grid with a point in that interval; of the points there it takes the one
  nearest the double, a tie going up or to the even point as a `Tie` says. Such a point
  reads back as the double and no decimal with fewer significant digits does. Display text
  settles ties upwards, wire text to the even point.

  `Digits` is that result as a digit string and a power of ten; the layouts `plain` (no
  exponent ever) and `json` (positional between `1e-5` and `1e16`, else `d.ddde±x`) print it.
  `fixed` prints the exact binary value rounded half-to-even to a number of places.
-/

namespace Telemetry

/-- A decimal `digits · 10^exp` with `digits` free of leading zeros. -/
structure Digits where
  digits : String
  exp : Int
  deriving Repr, DecidableEq

/-- How a double exactly halfway between two grid points is settled. -/
inductive Tie where
  /-- The larger point. -/
  | up
  /-- The point with an even last digit. -/
  | even
  deriving DecidableEq, Repr

namespace Binary64

/-- The exact quotient `X · 2^u / 10^k` as a numerator and denominator. -/
def gridRatio (x : Nat) (u k : Int) : Nat × Nat :=
  (x * Nat.pow 2 u.toNat * Nat.pow 10 (-k).toNat, Nat.pow 2 (-u).toNat * Nat.pow 10 k.toNat)

/-- Smallest integer `c` with `c · 10^k` at or above (strictly above when `!closed`) the
point `x · 2^u`. -/
def gridCeil (x : Nat) (u k : Int) (closed : Bool) : Nat :=
  let (a, b) := gridRatio x u k
  if a % b == 0 then (if closed then a / b else a / b + 1) else a / b + 1

/-- Largest integer `c` with `c · 10^k` at or below (strictly below when `!closed`) the
point `x · 2^u`. -/
def gridFloor (x : Nat) (u k : Int) (closed : Bool) : Nat :=
  let (a, b) := gridRatio x u k
  if a % b == 0 && !closed then a / b - 1 else a / b

/-- The grid point nearest `x · 2^u` on the grid `10^k`, a tie settled by `tie`. -/
def gridNearest (tie : Tie) (x : Nat) (u k : Int) : Nat :=
  let (a, b) := gridRatio x u k
  let q := a / b
  if 2 * (a % b) > b then q + 1
  else if 2 * (a % b) < b then q
  else match tie with
    | .up => q + 1
    | .even => if q % 2 == 0 then q else q + 1

/-- Searches grids `10^k, 10^(k-1), …` for the first that meets `[lo, hi]`
(scaled by `2^u`) and answers the chosen grid point with its exponent. -/
def searchGrid (tie : Tie) (v lo hi : Nat) (u : Int) (closed : Bool) : Nat → Int → Nat × Int
  | 0, k => (gridNearest tie v u k, k)
  | fuel + 1, k =>
    let cLo := gridCeil lo u k closed
    let cHi := gridFloor hi u k closed
    if cLo ≤ cHi then
      let c := gridNearest tie v u k
      (min cHi (max cLo c), k)
    else searchGrid tie v lo hi u closed fuel (k - 1)

/-- Shortest decimal `c · 10^k` that reads back as the positive value `m · 2^e`, `m > 0`. -/
def shortestOf (tie : Tie) (m : Nat) (e : Int) : Nat × Int :=
  let u := e - 2
  let gap := if m == hidden && e > -1074 then 1 else 2
  let closed := m % 2 == 0
  let top : Int := ((4 * m + 2).log2 + 1 : Nat) + u
  let start := top * 30103 / 100000 + 2
  searchGrid tie (4 * m) (4 * m - gap) (4 * m + 2) u closed 64 start

/-- The shortest round-trip digits of a finite double, ignoring its sign, a tie settled by
`tie`; zero is `0 · 10^0`. -/
def shortest (tie : Tie) (x : Binary64) : Digits :=
  match x.view with
  | .finite _ m e =>
    if m == 0 then ⟨"0", 0⟩
    else
      let (c, k) := shortestOf tie m e
      ⟨toString c, k⟩
  | _ => ⟨"0", 0⟩

end Binary64

namespace Digits

/-- Text of `n` zeros. -/
def zeros (n : Nat) : String := String.ofList (List.replicate n '0')

/-- Positional text with no exponent: `123000`, `12.3`, `0.000123`. -/
def plain (d : Digits) : String :=
  let n := d.digits.length
  if 0 ≤ d.exp then d.digits ++ zeros d.exp.toNat
  else
    let point : Int := n + d.exp
    if 0 < point then
      let cs := d.digits.toList
      String.ofList (cs.take point.toNat) ++ "." ++ String.ofList (cs.drop point.toNat)
    else "0." ++ zeros (-point).toNat ++ d.digits

/-- Exponent text with an explicit sign: `e+20`, `e-7`. -/
def exponentText (x : Int) : String :=
  if x < 0 then "e-" ++ toString x.natAbs else "e+" ++ toString x.natAbs

/-- The wire layout: positional below `10^16` and down to `10^-5` (a whole number keeps
`.0`), scientific `d.ddde±x` elsewhere. -/
def json (d : Digits) : String :=
  let n : Int := d.digits.length
  let kk := n + d.exp
  let cs := d.digits.toList
  if 0 ≤ d.exp && kk ≤ 16 then d.digits ++ zeros d.exp.toNat ++ ".0"
  else if 0 < kk && kk ≤ 16 then
    String.ofList (cs.take kk.toNat) ++ "." ++ String.ofList (cs.drop kk.toNat)
  else if -5 < kk && kk ≤ 0 then "0." ++ zeros (-kk).toNat ++ d.digits
  else if n == 1 then d.digits ++ exponentText (kk - 1)
  else String.ofList (cs.take 1) ++ "." ++ String.ofList (cs.drop 1) ++ exponentText (kk - 1)

end Digits

namespace Binary64

/-- Display text: the shortest digits, positional, `-` for a set sign bit; `inf`, `NaN`. -/
def display (x : Binary64) : String :=
  match x.view with
  | .nan => "NaN"
  | .infinite neg => if neg then "-inf" else "inf"
  | .finite neg _ _ => (if neg then "-" else "") ++ (x.shortest .up).plain

/-- Wire text: the shortest digits in the wire layout; `0.0` for zero. Non-finite values
have no wire text and are written `null`. -/
def jsonText (x : Binary64) : String :=
  match x.view with
  | .finite neg m _ =>
    (if neg then "-" else "") ++ (if m == 0 then "0.0" else (x.shortest .even).json)
  | _ => "null"

/-- The exact value rounded half-to-even to `places` decimals, with a `-` for a set sign bit
even when the rounded value is zero. -/
def fixed (places : Nat) (x : Binary64) : String :=
  match x.view with
  | .nan => "NaN"
  | .infinite neg => if neg then "-inf" else "inf"
  | .finite neg m e =>
    let a := m * Nat.pow 10 places * Nat.pow 2 e.toNat
    let b := Nat.pow 2 (-e).toNat
    let n := roundHalfEven (a / b) (a % b) b
    let unit := Nat.pow 10 places
    let frac := toString (n % unit)
    let body := toString (n / unit) ++
      (if places == 0 then "" else "." ++ Digits.zeros (places - frac.length) ++ frac)
    (if neg then "-" else "") ++ body

end Binary64

end Telemetry

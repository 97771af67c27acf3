import Telemetry.Metric.Error
import Telemetry.Number.Shortest
import Telemetry.Number.Read
import Telemetry.Text.Blank

/-
  Metric values: a gauge holds a finite double, a counter a 64-bit signed total.

  Text is read after trimming blanks: a gauge by the decimal grammar of `Binary64.read?` and
  only when finite, a counter as `[+-]digits` within 64 bits. Merging keeps the incoming
  gauge and adds counters, saturating at the 64-bit bounds; kinds never mix. A gauge is
  displayed by its shortest digits and signed in its canonical form with six decimals.
-/

namespace Telemetry

/-- A metric value. -/
inductive Value where
  | gauge (x : Binary64)
  | counter (n : Int64)
  deriving DecidableEq, Inhabited

namespace Value

/-- The kind of a value. -/
def kind : Value → Kind
  | gauge _ => .gauge
  | counter _ => .counter

/-- Smallest counter total. -/
def counterMin : Int := -Int.pow 2 63

/-- Largest counter total. -/
def counterMax : Int := Int.pow 2 63 - 1

/-- Reads value text of a known kind. -/
def parseAs (k : Kind) (text : String) : Except MetricError Value :=
  let t := Text.trim text
  match k with
  | .gauge =>
    match Binary64.read? t with
    | some x => if x.isFinite then .ok (gauge x) else .error (.invalidValue .gauge text)
    | none => .error (.invalidValue .gauge text)
  | .counter =>
    match Decimal.readInt? t counterMin counterMax with
    | some n => .ok (counter (Int64.ofInt n))
    | none => .error (.invalidValue .counter text)

/-- Reads a type tag and value text. -/
def parse (tag text : String) : Except MetricError Value := do
  let k ← Kind.parse tag
  parseAs k text

/-- A sum clamped to the counter range. -/
def saturatingAdd (a b : Int64) : Int64 :=
  Int64.ofInt (max counterMin (min counterMax (a.toInt + b.toInt)))

/-- The stored value after `incoming` arrives: the incoming gauge, or the saturated sum
of counters; `none` when the kinds differ. -/
def merge (current incoming : Value) : Option Value :=
  match current, incoming with
  | gauge _, gauge x => some (gauge x)
  | counter a, counter b => some (counter (saturatingAdd a b))
  | _, _ => none

/-- Display text: shortest digits for a gauge, the plain integer for a counter. -/
def display : Value → String
  | gauge x => x.display
  | counter n => toString n.toInt

/-- Canonical text, the part that is signed: six decimals for a gauge. -/
def canonical : Value → String
  | gauge x => Binary64.fixed 6 x
  | counter n => toString n.toInt

/-- The signed message `name:type:canonical`. -/
def canonicalMessage (v : Value) (name : String) : String :=
  name ++ ":" ++ v.kind.name ++ ":" ++ v.canonical

/-- Numeric equality: gauges compare as numbers (`0 = -0`). -/
def numEq : Value → Value → Bool
  | gauge x, gauge y => x.numEq y
  | counter a, counter b => a == b
  | _, _ => false

end Value

end Telemetry

import Telemetry.Number.Read
import Telemetry.Text.Blank

/-
  Durations written in settings: a bare count of seconds (`300`), or a sequence of
  `<number><unit>` parts (`1m30s`, `1.5h`, `300ms`) with units `ns us µs ms s m h`.

  Each part's number is read as a double and scaled by its unit as a double; the parts are
  summed in double arithmetic, and the sum becomes whole nanoseconds, rounded half-to-even.
  A negative, non-finite or too large sum (`2^64` seconds or more) is out of range.
-/

namespace Telemetry

/-- A span of time: whole seconds and the nanoseconds beyond them. -/
structure Duration where
  secs : Nat
  nanos : Nat
  deriving DecidableEq, Repr, Inhabited

namespace Duration

/-- A whole number of seconds. -/
def ofSecs (n : Nat) : Duration := ⟨n, 0⟩

/-- No time at all. -/
def isZero (d : Duration) : Bool := d.secs == 0 && d.nanos == 0

/-- Nanoseconds in a second. -/
def nanosPerSec : Nat := 1000000000

/-- The nearest duration to a double number of seconds, ties to an even nanosecond;
`none` when negative, not finite or at least `2^64` seconds. -/
def ofSeconds? (x : Binary64) : Option Duration :=
  match x.view with
  | .finite neg m e =>
    if neg && m != 0 then none
    else
      let a := m * nanosPerSec * Nat.pow 2 e.toNat
      let b := Nat.pow 2 (-e).toNat
      if m * Nat.pow 2 e.toNat ≥ Nat.pow 2 64 * b then none
      else
        let ns := Binary64.roundHalfEven (a / b) (a % b) b
        some ⟨ns / nanosPerSec, ns % nanosPerSec⟩
  | _ => none

end Duration

/-- Why a setting's text was refused. -/
inductive SettingError where
  | emptyDuration
  | invalidDuration (text : String)
  | missingUnit (text : String)
  | unknownUnit (unit text : String)
  | durationOutOfRange (text : String)
  | invalidBoolean (text : String)
  deriving DecidableEq, Repr

namespace SettingError

/-- The sentence for a refused setting. -/
def message : SettingError → String
  | emptyDuration => "empty duration"
  | invalidDuration t => "invalid duration '" ++ t ++ "'"
  | missingUnit t => "missing unit in duration '" ++ t ++ "'"
  | unknownUnit u t => "unknown unit '" ++ u ++ "' in duration '" ++ t ++ "'"
  | durationOutOfRange t => "duration '" ++ t ++ "' out of range"
  | invalidBoolean t => "invalid boolean '" ++ t ++ "'"

end SettingError

namespace Duration

/-- A character of a duration's number part. -/
def isNumberChar (c : Char) : Bool := c.isDigit || c == '.'

/-- The double factor of a unit, if it is one. -/
def unitScale? (u : String) : Option Binary64 :=
  if u == "ns" then some (Binary64.ofRatio false 1 1000000000 0)
  else if u == "us" || u == "µs" then some (Binary64.ofRatio false 1 1000000 0)
  else if u == "ms" then some (Binary64.ofRatio false 1 1000 0)
  else if u == "s" then some (Binary64.ofNat 1)
  else if u == "m" then some (Binary64.ofNat 60)
  else if u == "h" then some (Binary64.ofNat 3600)
  else none

/-- Sums the `<number><unit>` parts of `rest`; `text` is the whole trimmed text. -/
def sumParts (text : String) : Nat → List Char → Binary64 → Except SettingError Binary64
  | _, [], total => .ok total
  | 0, _, _ => .error (.invalidDuration text)
  | fuel + 1, rest, total => do
    let num := rest.takeWhile isNumberChar
    if num.isEmpty then throw (.invalidDuration text)
    let some n := Binary64.read? (String.ofList num) | throw (.invalidDuration text)
    let rest := rest.dropWhile isNumberChar
    let u := rest.takeWhile (!isNumberChar ·)
    if u.isEmpty then throw (.missingUnit text)
    let some scale := unitScale? (String.ofList u) | throw (.unknownUnit (String.ofList u) text)
    sumParts text fuel (rest.dropWhile (!isNumberChar ·)) (total + n * scale)

/-- Reads a duration setting. -/
def parse (raw : String) : Except SettingError Duration := do
  let text := Text.trim raw
  if text.isEmpty then throw .emptyDuration
  match Decimal.readNat? text (Nat.pow 2 64) with
  | some n => pure (ofSecs n)
  | none =>
    let total ← sumParts text text.length text.toList (Binary64.zero false)
    match ofSeconds? total with
    | some d => pure d
    | none => throw (.durationOutOfRange text)

/-- A whole number and a fraction of `width` decimal places, without trailing zeros. -/
def decimalText (whole frac width : Nat) : String :=
  let digits := Nat.toDigits 10 frac
  let padded := List.replicate (width - digits.length) '0' ++ digits
  let kept := (padded.reverse.dropWhile (· == '0')).reverse
  toString whole ++ (if kept.isEmpty then "" else "." ++ String.ofList kept)

/-- The text of a duration in the largest unit it reaches: `300s`, `1.5s`, `250ms`, `3µs`,
`0ns`. -/
def text (d : Duration) : String :=
  if d.secs > 0 then decimalText d.secs d.nanos 9 ++ "s"
  else if d.nanos ≥ 1000000 then decimalText (d.nanos / 1000000) (d.nanos % 1000000) 6 ++ "ms"
  else if d.nanos ≥ 1000 then decimalText (d.nanos / 1000) (d.nanos % 1000) 3 ++ "µs"
  else toString d.nanos ++ "ns"

end Duration

/-- Reads a boolean setting: `1 t T true TRUE True` and `0 f F false FALSE False`. -/
def parseFlag (raw : String) : Except SettingError Bool :=
  let t := Text.trim raw
  if ["1", "t", "T", "true", "TRUE", "True"].contains t then .ok true
  else if ["0", "f", "F", "false", "FALSE", "False"].contains t then .ok false
  else .error (.invalidBoolean t)

end Telemetry

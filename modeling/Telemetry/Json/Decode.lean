import Telemetry.Json.Basic
import Telemetry.Number.Binary64
import Telemetry.Text.Utf8

/-
  Typed readings of a `Json`.

  * Strings: escapes are applied, a `\u` high surrogate must be followed by a `\u` low
    surrogate, a lone low surrogate is refused, and the raw bytes must be well-formed UTF-8.
  * Numbers: `Json.Num.classify` sorts a number text the way typed readers see it. A whole
    number without sign that fits 64 bits is `unsigned`, a negative one that fits 64 bits is
    `signed` (but `-0` is the float `-0.0`), anything else is a `float`. Floats are built from
    a 64-bit decimal significand (digits past it are dropped) and a power of ten applied by one
    rounded multiplication or division by the nearest double of `10^k`, `k ≤ 308`; a result
    past the largest double is an error, not infinity.
  * Objects read as records: `Json.fields` looks up the known member names, refusing a name
    that is not text and a known name given twice; other members are ignored.
-/

namespace Telemetry

namespace Json

/-- Value of a hexadecimal digit byte. -/
def hexValue (b : UInt8) : Nat :=
  if b ≤ 0x39 then (b - 0x30).toNat
  else if b ≤ 0x46 then (b - 0x41).toNat + 10
  else (b - 0x61).toNat + 10

/-- The four-digit value of a `\u` escape. -/
def hex4 (a b c d : UInt8) : Nat :=
  ((hexValue a * 16 + hexValue b) * 16 + hexValue c) * 16 + hexValue d

/-- The characters of a raw string body, or `none` if an escape or the UTF-8 is bad. -/
def unescape : Nat → List UInt8 → Option (List Char)
  | _, [] => some []
  | 0, _ => none
  | fuel + 1, b :: rest =>
    if b == 0x5c then
      match rest with
      | 0x75 :: h1 :: h2 :: h3 :: h4 :: r =>
        let n := hex4 h1 h2 h3 h4
        if 0xd800 ≤ n && n < 0xdc00 then
          match r with
          | 0x5c :: 0x75 :: l1 :: l2 :: l3 :: l4 :: r' =>
            let m := hex4 l1 l2 l3 l4
            if 0xdc00 ≤ m && m < 0xe000 then
              let c := Char.ofNat (0x10000 + (n - 0xd800) * 0x400 + (m - 0xdc00))
              (unescape fuel r').map (c :: ·)
            else none
          | _ => none
        else if 0xdc00 ≤ n && n < 0xe000 then none
        else (unescape fuel r).map (Char.ofNat n :: ·)
      | e :: r =>
        let c := if e == 0x62 then '\x08' else if e == 0x66 then '\x0c'
          else if e == 0x6e then '\n' else if e == 0x72 then '\r'
          else if e == 0x74 then '\t' else Char.ofNat e.toNat
        (unescape fuel r).map (c :: ·)
      | [] => none
    else
      match Utf8.decodeOne (b :: rest) with
      | some (c, r) => (unescape fuel r).map (c :: ·)
      | none => none

/-- The text of a raw string body. -/
def decodeString? (raw : List UInt8) : Option String :=
  (unescape raw.length raw).map String.ofList

/-- A number as typed readers see it. -/
inductive Num where
  /-- A whole number in `0 ..< 2^64`. -/
  | unsigned (n : Nat)
  /-- A whole number in `-2^63 ..< 0`. -/
  | signed (i : Int)
  | float (x : Binary64)

namespace Num

/-- Largest 64-bit unsigned value. -/
def u64Max : Nat := Nat.pow 2 64 - 1

/-- Appending digit `d` to `sig` would pass `2^64 - 1`. -/
def overflows (sig d : Nat) : Bool := sig ≥ u64Max / 10 && (sig > u64Max / 10 || d > u64Max % 10)

/-- Value of an ASCII digit. -/
def digit (c : Char) : Nat := c.toNat - '0'.toNat

/-- Applies `10^exp` to `f` by rounded steps of at most `10^308`; `none` past the largest
double. -/
def scale (f : Binary64) : Nat → Int → Option Binary64
  | 0, _ => some f
  | fuel + 1, exp =>
    if exp.natAbs ≤ 308 then
      if 0 ≤ exp then
        let g := Binary64.mul f (Binary64.pow10 exp.toNat)
        if g.isFinite then some g else none
      else some (Binary64.div f (Binary64.pow10 exp.natAbs))
    else if f.isZero then some f
    else if 0 ≤ exp then none
    else scale (Binary64.div f (Binary64.pow10 308)) fuel (exp + 308)

/-- The float `±sig · 10^exp` built as described above. -/
def fromParts (neg : Bool) (sig : Nat) (exp : Int) : Option Binary64 :=
  (scale (Binary64.ofNat sig) (exp.natAbs / 308 + 2) exp).map fun f => if neg then f.neg else f

/-- Exponent digits as a 32-bit count: `none` when they pass `2^31 - 1`. -/
def exponentDigits : List Char → Nat → Option Nat
  | [], acc => some acc
  | c :: cs, acc =>
    let v := acc * 10 + digit c
    if v > Nat.pow 2 31 - 1 then none else exponentDigits cs v

/-- Reads the exponent part after `e`: the final float, or an error past the range. -/
def exponentPart (neg : Bool) (sig : Nat) (start : Int) (cs : List Char) : Option Binary64 :=
  let (eneg, ds) := match cs with
    | '-' :: r => (true, r)
    | '+' :: r => (false, r)
    | r => (false, r)
  match exponentDigits ds 0 with
  | some e => fromParts neg sig (if eneg then start - e else start + e)
  | none =>
    if sig != 0 && !eneg then none
    else some (Binary64.zero neg)

/-- Fraction digits after the point (or after the significand filled up). -/
def fractionPart (neg : Bool) : List Char → Nat → Int → Option Binary64
  | [], sig, exp => fromParts neg sig exp
  | c :: cs, sig, exp =>
    if c.isDigit then
      if overflows sig (digit c) then
        let rest := cs.dropWhile Char.isDigit
        match rest with
        | e :: r => if e == 'e' || e == 'E' then exponentPart neg sig exp r else none
        | [] => fromParts neg sig exp
      else fractionPart neg cs (sig * 10 + digit c) (exp - 1)
    else if c == 'e' || c == 'E' then exponentPart neg sig exp cs
    else none

/-- Integer digits once the significand is full: each further digit adds one to the
exponent. -/
def longWhole (neg : Bool) (sig : Nat) : List Char → Int → Option Binary64
  | [], exp => fromParts neg sig exp
  | c :: cs, exp =>
    if c.isDigit then longWhole neg sig cs (exp + 1)
    else if c == '.' then fractionPart neg cs sig exp
    else if c == 'e' || c == 'E' then exponentPart neg sig exp cs
    else none

/-- Integer digits while the significand fits. -/
def whole (neg : Bool) : List Char → Nat → Option Num
  | [], sig =>
    if !neg then some (.unsigned sig)
    else if sig == 0 || sig > Nat.pow 2 63 then some (.float (Binary64.ofNat sig).neg)
    else some (.signed (-(sig : Int)))
  | c :: cs, sig =>
    if c.isDigit then
      if overflows sig (digit c) then (longWhole neg sig (c :: cs) 0).map .float
      else whole neg cs (sig * 10 + digit c)
    else if c == '.' then (fractionPart neg cs sig 0).map .float
    else if c == 'e' || c == 'E' then (exponentPart neg sig 0 cs).map .float
    else none

/-- Sorts number text (already checked against the JSON grammar); `none` when a float
leaves the range of doubles. -/
def classify (text : String) : Option Num :=
  match text.toList with
  | '-' :: cs => whole true cs 0
  | cs => whole false cs 0

end Num

/-- A text, read as a typed string. -/
def asString? : Json → Option String
  | .string raw => decodeString? raw
  | _ => none

/-- A boolean. -/
def asBool? : Json → Option Bool
  | .bool b => some b
  | _ => none

/-- A whole number in `0 ..< 2^64`. -/
def asU64? : Json → Option Nat
  | .number t => match Num.classify t with
    | some (.unsigned n) => some n
    | _ => none
  | _ => none

/-- A whole number in `-2^63 ..< 2^63`. -/
def asI64? : Json → Option Int
  | .number t => match Num.classify t with
    | some (.unsigned n) => if n < Nat.pow 2 63 then some n else none
    | some (.signed i) => some i
    | _ => none
  | _ => none

/-- A double: whole numbers are converted to the nearest double. -/
def asF64? : Json → Option Binary64
  | .number t => match Num.classify t with
    | some (.unsigned n) => some (Binary64.ofNat n)
    | some (.signed i) => some (Binary64.ofInt i)
    | some (.float x) => some x
    | none => none
  | _ => none

/-- An optional member: `null` reads as absent, anything else through `read`. The outer
`none` is a reading failure. -/
def optional (read : Json → Option α) : Json → Option (Option α)
  | .null => some none
  | j => (read j).map some

/-- The member name as bytes of a field name. -/
def nameBytes (name : String) : List UInt8 := name.toUTF8.toList

/-- Collects the members of an object for a record with the given field names, in that
order: `none` if a member name is not text or a known name appears twice. -/
def collect (names : List String) : List (List UInt8 × Json) → List (Option Json) →
    Option (List (Option Json))
  | [], acc => some acc
  | (raw, v) :: rest, acc =>
    match decodeString? raw with
    | none => none
    | some key =>
      match names.idxOf? key with
      | none => collect names rest acc
      | some i =>
        match acc[i]? with
        | some (some _) => none
        | _ => collect names rest (acc.set i (some v))

/-- The known members of a record given as an object, or positionally as an array (then
fewer elements leave the last fields absent, and more are refused). -/
def fields (names : List String) : Json → Option (List (Option Json))
  | .object ms => collect names ms (names.map fun _ => none)
  | .array items =>
    if items.length > names.length then none
    else some (items.map some ++ (List.replicate (names.length - items.length) none))
  | _ => none

end Json

end Telemetry

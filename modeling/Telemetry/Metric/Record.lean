import Telemetry.Metric.Value
import Telemetry.Json.Decode
import Telemetry.Json.Writer
import Telemetry.Json.Reader

/-
  The wire form of one metric: `{"id", "type", "delta"?, "value"?, "hash"?}`.

  Reading: `id` and `type` are required strings, `delta` an optional 64-bit integer (a
  fraction or `-0` is no integer), `value` an optional double (whole numbers convert),
  `hash` an optional string; `null` is absence for the two numbers, other members are
  ignored, and a member named twice is refused. The members may also be given positionally,
  as an array in the order above.
  Writing: the members in the order above, `delta` and `value` only when present and `hash`
  only when not empty; a double in its shortest wire text.
-/

namespace Telemetry

/-- A metric as exchanged on the wire. -/
structure Record where
  id : String
  type : String
  delta : Option Int64 := none
  value : Option Binary64 := none
  hash : String := ""
  deriving DecidableEq, Inhabited

namespace Record

/-- The member names, in wire order. -/
def fieldNames : List String := ["id", "type", "delta", "value", "hash"]

/-- Reads a required member with `read`. -/
def required (read : Json → Option α) : Option Json → Option α
  | some j => read j
  | none => none

/-- Reads a member that defaults when absent. -/
def withDefault (d : α) (read : Json → Option α) : Option Json → Option α
  | some j => read j
  | none => some d

/-- Reads a record from a JSON document. -/
def ofJson? (j : Json) : Option Record := do
  let fs ← Json.fields fieldNames j
  match fs with
  | [fid, ftype, fdelta, fvalue, fhash] =>
    let id ← required Json.asString? fid
    let type ← required Json.asString? ftype
    let delta ← withDefault none (Json.optional fun j => (Json.asI64? j).map Int64.ofInt) fdelta
    let value ← withDefault none (Json.optional Json.asF64?) fvalue
    let hash ← withDefault "" Json.asString? fhash
    pure { id, type, delta, value, hash }
  | _ => none

/-- Reads a list of records from a JSON array. -/
def listOfJson? : Json → Option (List Record)
  | .array items => items.mapM ofJson?
  | _ => none

/-- The wire text. -/
def toJsonText (r : Record) : String :=
  Json.objectText <|
    [("id", Json.quote r.id), ("type", Json.quote r.type)] ++
    (match r.delta with | some d => [("delta", toString d.toInt)] | none => []) ++
    (match r.value with | some v => [("value", v.jsonText)] | none => []) ++
    (if r.hash.isEmpty then [] else [("hash", Json.quote r.hash)])

/-- The wire text of a list. -/
def listToJsonText (rs : List Record) : String := Json.arrayText (rs.map toJsonText)

/-- A request for a stored metric: name and kind only. -/
def query (id : String) (k : Kind) : Record := { id, type := k.name }

/-- The value a record carries: its type must be a kind, a gauge needs a finite `value`
and a counter a `delta`. -/
def toValue (r : Record) : Except MetricError Value := do
  match ← Kind.parse r.type with
  | .gauge =>
    match r.value with
    | some x => if x.isFinite then pure (.gauge x) else throw (.invalidValue .gauge x.display)
    | none => throw (.missingValue r.id .gauge "value")
  | .counter =>
    match r.delta with
    | some d => pure (.counter d)
    | none => throw (.missingValue r.id .counter "delta")

/-- Records are equal as values: doubles compare numerically. -/
def sameAs (a b : Record) : Bool :=
  a.id == b.id && a.type == b.type && a.delta == b.delta && a.hash == b.hash &&
  match a.value, b.value with
  | some x, some y => x.numEq y
  | none, none => true
  | _, _ => false

end Record

namespace Value

/-- The wire record of a stored value under `name`, with the given hash. -/
def toRecordWith (v : Value) (name hash : String) : Record :=
  match v with
  | .gauge x => { id := name, type := "gauge", value := some x, hash }
  | .counter n => { id := name, type := "counter", delta := some n, hash }

end Value

end Telemetry

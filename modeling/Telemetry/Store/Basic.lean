import Telemetry.Metric.Signature

/-
  The metric store: at most one value per name, updated by merging.

  A `Store` is a list of named values with distinct names; `get?` is its view. Ingesting a
  value stores it under a new name, or merges it into the stored one (gauges take the new
  reading, counters add), refusing a value of the other kind. A batch is checked record by
  record (value first, then integrity) and then merged in order, each record against the
  batch's earlier records of its name, else the store; it applies entirely or not at all.
  Restoring replaces the content by the readable records of a snapshot, a later record of a
  name winning.

  `Integrity` decides whether a record's hash is acceptable: a missing hash is refused only
  when hashes are required, and a present hash is checked only when a secret is configured.
-/

namespace Telemetry

/-- The hash policy applied to incoming records. -/
structure Integrity where
  signer : Signer := {}
  requireHash : Bool := false
  deriving Inhabited

namespace Integrity

/-- Accepts or refuses a record's hash. -/
def check (i : Integrity) (r : Record) : Except MetricError Unit :=
  if r.hash.isEmpty then
    if i.requireHash then .error (.missingHash r.id) else .ok ()
  else if i.signer.isKeyed && !i.signer.verify r then .error (.hashMismatch r.id)
  else .ok ()

end Integrity

/-- Named metric values, one per name. -/
structure Store where
  entries : List (String × Value) := []
  deriving Inhabited

namespace Store

/-- The value stored under a name. -/
def get? (s : Store) (name : String) : Option Value := s.entries.lookup name

/-- Stores `v` under `name`, replacing a stored value. -/
def put (s : Store) (name : String) (v : Value) : Store :=
  if (s.entries.lookup name).isSome then
    ⟨s.entries.map fun (n, w) => if n == name then (n, v) else (n, w)⟩
  else ⟨s.entries ++ [(name, v)]⟩

/-- The value `incoming` becomes when merged under `name` into `s`. -/
def mergeInto (s : Store) (name : String) (incoming : Value) : Except MetricError Value :=
  match s.get? name with
  | none => .ok incoming
  | some current =>
    match current.merge incoming with
    | some v => .ok v
    | none => .error (.typeConflict name current.kind incoming.kind)

/-- Ingests a value under a name: the stored result and the new store. -/
def ingestValue (s : Store) (name : String) (incoming : Value) :
    Except MetricError (Value × Store) := do
  let v ← s.mergeInto name incoming
  pure (v, s.put name v)

/-- Ingests value text of a type tag. -/
def ingestOne (s : Store) (tag name text : String) : Except MetricError (Value × Store) := do
  let v ← Value.parse tag text
  s.ingestValue name v

/-- Ingests a record: its value is checked before its hash. -/
def ingestRecord (s : Store) (r : Record) (integrity : Integrity) :
    Except MetricError (Value × Store) := do
  let v ← r.toValue
  integrity.check r
  s.ingestValue r.id v

/-- The values of a batch, each checked for value and then hash, in order. -/
def batchValues (rs : List Record) (integrity : Integrity) :
    Except MetricError (List (String × Value)) :=
  rs.mapM fun r => do
    let v ← r.toValue
    integrity.check r
    pure (r.id, v)

/-- Merges a batch's values into a staging store, each against the staged value of its
name or else the stored one. -/
def stage (s : Store) : Store → List (String × Value) → Except MetricError Store
  | staged, [] => .ok staged
  | staged, (name, v) :: rest => do
    let merged ← match staged.get? name with
      | some _ => staged.mergeInto name v
      | none => s.mergeInto name v
    stage s (staged.put name merged) rest

/-- Ingests a batch atomically: the number of distinct names and the new store. -/
def ingestBatch (s : Store) (rs : List Record) (integrity : Integrity) :
    Except MetricError (Nat × Store) := do
  let vs ← batchValues rs integrity
  let staged ← stage s {} vs
  pure (staged.entries.length, staged.entries.foldl (fun acc (n, v) => acc.put n v) s)

/-- The stored value of a name and type tag; a tag that is no kind, an unknown name and a
value of the other kind are all "not found" under the tag as given. -/
def get (s : Store) (tag name : String) : Except MetricError Value :=
  let notFound := MetricError.notFound name tag
  match Kind.parse tag with
  | .error _ => .error notFound
  | .ok k =>
    match s.get? name with
    | some v => if v.kind == k then .ok v else .error notFound
    | none => .error notFound

/-- Lines `name = display`, in no particular order. -/
def listing (s : Store) : List String := s.entries.map fun (n, v) => n ++ " = " ++ v.display

/-- Number of names. -/
def size (s : Store) : Nat := s.entries.length

/-- The signed records of every stored value. -/
def snapshot (s : Store) (signer : Signer) : List Record :=
  s.entries.map fun (n, v) => v.toRecord n signer

/-- The store holding the readable records of a snapshot, a later record of a name
replacing an earlier one. -/
def ofRecords (rs : List Record) : Store :=
  rs.foldl (fun acc r => match r.toValue with
    | .ok v => acc.put r.id v
    | .error _ => acc) {}

end Store

end Telemetry

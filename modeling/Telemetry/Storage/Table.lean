import Telemetry.Metric.Record
import Telemetry.Storage.DatabaseFile
import Telemetry.Storage.Error

/-
  The metrics table of a database backend: one row per metric name and type.

  Writing a snapshot inserts each record as a row, or updates the value, delta and hash of
  the row with the same name and type, which keeps its place. The value column holds
  doubles whose whole-number values are kept as integers, so a negative zero comes back as
  zero, and a NaN is stored as null.

  A read takes the rows in order and fails on the first that does not read back as a record
  (name, type and hash must be UTF-8 text, the value null or a number, the delta null or an
  integer), or that does not make a metric value. A table found in a database file holds
  the rows of the file; when the file lacks one of the columns, or its pages cannot be read,
  reads fail, and so do writes (those of no record too, when a column is missing).
-/

namespace Telemetry

/-- A row of the metrics table, as stored. -/
structure Row where
  id : Cell
  type : Cell
  value : Cell
  delta : Cell
  hash : Cell
  deriving DecidableEq

namespace Row

/-- The cell stored for a double: a NaN is null, and a zero loses its sign. -/
def valueCell (x : Binary64) : Cell :=
  if x.isNaN then .null else .real (if x.isZero then Binary64.zero false else x)

/-- The row stored for a record. -/
def ofRecord (r : Record) : Row :=
  { id := .text (Utf8.encode r.id), type := .text (Utf8.encode r.type),
    value := (r.value.map valueCell).getD .null,
    delta := (r.delta.map fun d => Cell.integer d.toInt).getD .null,
    hash := .text (Utf8.encode r.hash) }

/-- A text column read as a string: UTF-8 text only. -/
def textField : Cell → Except StorageError String
  | .text bs => match Utf8.decode? bs with
    | some s => .ok s
    | none => .error .sqlite
  | _ => .error .sqlite

/-- A column read as an optional double: null, a double, or an integer converted. -/
def realField : Cell → Except StorageError (Option Binary64)
  | .null => .ok none
  | .real x => .ok (some x)
  | .integer i => .ok (some (Binary64.ofInt i))
  | _ => .error .sqlite

/-- A column read as an optional 64-bit integer: null or an integer. -/
def integerField : Cell → Except StorageError (Option Int64)
  | .null => .ok none
  | .integer i => .ok (some (Int64.ofInt i))
  | _ => .error .sqlite

/-- The record a row reads back as, its columns taken in order. -/
def toRecord (row : Row) : Except StorageError Record := do
  let id ← textField row.id
  let type ← textField row.type
  let value ← realField row.value
  let delta ← integerField row.delta
  let hash ← textField row.hash
  pure { id, type, value, delta, hash }

/-- The row of a record's cells, given the positions of the five columns; a cell past the
end of the record is null. -/
def ofCells (cells : List Cell) (id type value delta hash : Nat) : Row :=
  let cell (i : Nat) := cells.getD i .null
  ⟨cell id, cell type, cell value, cell delta, cell hash⟩

end Row

/-- The rows of the metrics table, in order of first insertion. -/
structure Table where
  rows : List Row := []
  /-- The table has every column that is read and written. -/
  columnsFound : Bool := true
  /-- The table's pages could be read. -/
  pagesRead : Bool := true
  deriving Inhabited

namespace Table

/-- Inserts a row, or updates the row of the same name and type in place. -/
def upsert (t : Table) (row : Row) : Table :=
  let same (r : Row) := r.id == row.id && r.type == row.type
  if t.rows.any same then { t with rows := t.rows.map fun r => if same r then row else r }
  else { t with rows := t.rows ++ [row] }

/-- Writes a snapshot: one upsert per record, in order. -/
def write (t : Table) (rs : List Record) : Except StorageError Table :=
  if !t.columnsFound || (!t.pagesRead && !rs.isEmpty) then .error .sqlite
  else .ok (rs.foldl (fun acc r => acc.upsert (Row.ofRecord r)) t)

/-- Reads every row back as a record, failing on the first that is no record or no metric
value. -/
def read (t : Table) : Except StorageError (List Record) :=
  if !t.columnsFound || !t.pagesRead then .error .sqlite
  else
    t.rows.mapM fun row => do
      let r ← row.toRecord
      match r.toValue with
      | .ok _ => pure r
      | .error e => throw (.corruptRow r.id ((MetricError.message? e).getD ""))

/-- The position of a column by name. -/
def columnIndex (columns : List String) (name : String) : Option Nat :=
  (columns.zipIdx.find? (·.1 == name)).map (·.2)

/-- The metrics table as a database file holds it: its rows, taken by column name. -/
def ofImage : DatabaseFile.TableImage → Table
  | .absent => {}
  | .found columns records =>
    let column := columnIndex columns
    match column "id", column "mtype", column "value", column "delta", column "hash" with
    | some a, some b, some c, some d, some e =>
      match records with
      | some rs => { rows := rs.map fun cells => Row.ofCells cells a b c d e }
      | none => { pagesRead := false }
    | _, _, _, _, _ => { columnsFound := false }

end Table

end Telemetry

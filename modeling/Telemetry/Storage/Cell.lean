import Telemetry.Number.Binary64

/-
  Values as a database stores them in the cells of a table: null, a 64-bit integer, a
  double, text or a blob. Text is kept as the UTF-8 bytes the database hands out, which need
  not be valid UTF-8 when the file was written by other means.
-/

namespace Telemetry

/-- A value stored in a table cell. -/
inductive Cell where
  | null
  | integer (i : Int)
  | real (x : Binary64)
  | text (bytes : List UInt8)
  | blob (bytes : List UInt8)
  deriving DecidableEq

end Telemetry

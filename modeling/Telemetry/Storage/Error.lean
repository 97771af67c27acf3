/-
  Why a snapshot backend failed.

  Database, JSON and file system failures are reported by kind only: their wording belongs
  to the layer that found them. A backend without a liveness check, and a stored row that no
  longer makes a metric, say so in a sentence of their own.
-/

namespace Telemetry

/-- A failure of a snapshot backend. -/
inductive StorageError where
  | sqlite
  | json
  | io
  | pingUnsupported (backend : String)
  | corruptRow (id reason : String)
  deriving DecidableEq, Repr

namespace StorageError

/-- The name of the kind of failure. -/
def name : StorageError → String
  | sqlite => "Sqlite"
  | json => "Json"
  | io => "Io"
  | pingUnsupported _ => "PingUnsupported"
  | corruptRow .. => "CorruptRow"

/-- The sentence describing the failure, for the kinds that have one. -/
def message? : StorageError → Option String
  | pingUnsupported b => some ("Storage: " ++ b ++ " backend does not support ping")
  | corruptRow id reason => some ("Storage: corrupt row for metric '" ++ id ++ "': " ++ reason)
  | _ => none

end StorageError

end Telemetry

import Telemetry.Disk
import Telemetry.Json.Reader
import Telemetry.Storage.Source
import Telemetry.Storage.Table

/-
  Snapshot backends and the volume they write to.

  A file backend keeps the snapshot as a JSON array in one file, written whole. Reading a
  missing file, or one of ASCII blanks only, gives no records; a file that is not a JSON
  array of records is a JSON failure, and an unreadable path an I/O failure. Writing makes
  the parent directories first and replaces the file through a temporary file beside it. The
  device may refuse any step of a write (`Volume.writeUnder`); the server's own writes are
  taken on a device that refuses nothing (`Volume.write`).

  A database backend keeps the metrics table of a database, named by a data source. The
  parent directories of the name, read as a path, are made first. A private database is new
  and empty. A database file is found by walking its path; it is made when missing if the
  mode allows, an empty file becomes a database, and any other file is read as a database
  file, whose metrics table (if any) it keeps. A file that is no database, a directory, or a
  path that cannot be walked cannot be opened; only a database already open can be opened
  read only, and then it refuses to store records. Only a database backend answers a
  liveness check.
-/

namespace Telemetry

/-- Where a database lives. -/
inductive DatabaseId where
  /-- The `n`-th private database opened. -/
  | memory (n : Nat)
  /-- A database file, by the place its path reaches. -/
  | file (place : List String)
  deriving DecidableEq, Repr

/-- The files and databases one request sees. -/
structure Volume where
  disk : Disk := {}
  databases : List (DatabaseId × Table) := []
  /-- Private databases opened so far. -/
  opened : Nat := 0

/-- A snapshot backend. -/
inductive Backend where
  | file (path : String)
  /-- A database; `writable` unless opened read only. -/
  | database (id : DatabaseId) (writable : Bool)
  deriving DecidableEq, Repr

namespace Backend

/-- The backend's short name. -/
def name : Backend → String
  | file _ => "file"
  | database _ _ => "sqlite"

/-- The liveness check: only databases answer. -/
def ping : Backend → Except StorageError Unit
  | file _ => .error (.pingUnsupported "file")
  | database _ _ => .ok ()

end Backend

namespace Volume

/-- The first bytes of a database file. -/
def databaseHeader : ByteArray := "SQLite format 3\x00".toUTF8

/-- The table of a database. -/
def table (v : Volume) (id : DatabaseId) : Table := (v.databases.lookup id).getD {}

/-- Replaces the table of a database. -/
def setTable (v : Volume) (id : DatabaseId) (t : Table) : Volume :=
  { v with databases := (v.databases.filter fun (i, _) => i != id) ++ [(id, t)] }

/-- A new private database. -/
def openPrivate (v : Volume) : Backend × Volume :=
  let id := DatabaseId.memory v.opened
  (.database id true, { v with opened := v.opened + 1 }.setTable id {})

/-- Opens the database file at a path in a mode. A database already open in this volume is
shared; a file read only must be one. A missing file is made, if the mode allows, and an
empty one becomes a database; any other file is read as a database file. -/
def openFile (v : Volume) (path : String) (mode : OpenMode) :
    Except StorageError (Backend × Volume) :=
  match v.disk.locate path with
  | .error _ => .error .sqlite
  | .ok place =>
    let id := DatabaseId.file place
    let writable := mode != .readOnly
    let opened (t : Table) : Except StorageError (Backend × Volume) :=
      match v.disk.put place databaseHeader with
      | .ok disk => .ok (.database id writable, { v with disk }.setTable id t)
      | .error _ => .error .sqlite
    if (v.databases.lookup id).isSome then .ok (.database id writable, v)
    else if !writable then .error .sqlite
    else
      match v.disk.fileAt? place with
      | some bytes =>
        if bytes.isEmpty then opened {}
        else
          match DatabaseFile.tableImage? bytes "metrics" with
          | some image => .ok (.database id writable, v.setTable id (Table.ofImage image))
          | none => .error .sqlite
      | none =>
        if v.disk.isDir place || mode != .create then .error .sqlite else opened {}

/-- Opens a database backend for a data source name. The parent directories made for the
name stay made when opening fails. -/
def openDatabase (v : Volume) (dsn : String) : Except StorageError Backend × Volume :=
  match v.disk.makeParents (DataSource.target dsn) with
  | (disk, some _) => (.error .io, { v with disk })
  | (disk, none) =>
    let v := { v with disk }
    let opened : Except StorageError (Backend × Volume) := match DataSource.parse dsn with
      | none => .error .sqlite
      | some .transient => .ok v.openPrivate
      | some (.file path mode) => v.openFile path mode
    match opened with
    | .ok (b, v) => (.ok b, v)
    | .error e => (.error e, v)

/-- ASCII blank bytes: space, tab, line feed, form feed, carriage return. -/
def isAsciiBlank (b : UInt8) : Bool :=
  b == 0x20 || b == 0x09 || b == 0x0a || b == 0x0c || b == 0x0d

/-- Reads the snapshot file at a path. -/
def fileRecords (v : Volume) (path : String) : Except StorageError (List Record) :=
  match v.disk.read path with
  | .error .missing => .ok []
  | .error _ => .error .io
  | .ok bytes =>
    if bytes.toList.all isAsciiBlank then .ok []
    else match Json.read? bytes.toList >>= Record.listOfJson? with
      | some rs => .ok rs
      | none => .error .json

/-- Writes a snapshot to a backend on a device that refuses the step `refusal` names, if any;
answers the outcome and the volume afterwards, which keeps what a failed file write did on
disk. A database takes the snapshot in one transaction, which a refused step, whichever it
is, rolls back whole. -/
def writeUnder (v : Volume) (b : Backend) (rs : List Record) (refusal : Option Refusal) :
    Except StorageError Unit × Volume :=
  match b with
  | .file path =>
    match v.disk.replaceUnder path (Record.listToJsonText rs).toUTF8 refusal with
    | (disk, none) => (.ok (), { v with disk })
    | (disk, some _) => (.error .io, { v with disk })
  | .database id writable =>
    if refusal.isSome then (.error .sqlite, v)
    else if writable || rs.isEmpty then
      match (v.table id).write rs with
      | .ok t => (.ok (), v.setTable id t)
      | .error e => (.error e, v)
    else (.error .sqlite, v)

/-- Writes a snapshot to a backend on a device that refuses nothing. -/
def write (v : Volume) (b : Backend) (rs : List Record) : Except StorageError Unit × Volume :=
  v.writeUnder b rs none

/-- Reads a backend's snapshot. -/
def read (v : Volume) : Backend → Except StorageError (List Record)
  | .file path => v.fileRecords path
  | .database id _ => (v.table id).read

end Volume

/-- The backends snapshots go to, in order. -/
structure Persistence where
  backends : List Backend := []
  deriving Inhabited

namespace Persistence

/-- The backends' names, in order. -/
def names (p : Persistence) : List String := p.backends.map Backend.name

/-- No backend is configured. -/
def isEmpty (p : Persistence) : Bool := p.backends.isEmpty

/-- Writes a snapshot to every backend; a failing backend is skipped. -/
def writeAll (p : Persistence) (v : Volume) (rs : List Record) : Volume :=
  p.backends.foldl (fun v b => (v.write b rs).2) v

/-- The records of every readable backend, in backend order. -/
def restore (p : Persistence) (v : Volume) : List Record :=
  p.backends.flatMap fun b => match v.read b with
    | .ok rs => rs
    | .error _ => []

/-- Some backend answers its liveness check. -/
def ping (p : Persistence) : Bool :=
  p.backends.any fun b => match b.ping with
    | .ok _ => true
    | .error _ => false

end Persistence

end Telemetry

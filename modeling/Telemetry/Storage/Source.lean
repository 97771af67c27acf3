import Telemetry.Text.Blank
import Telemetry.Text.Utf8

/-
  Data source names of databases.

  A name is trimmed and may start with `sqlite://`. `:memory:` or nothing names a private
  database held in memory. A name starting with `file:` is a URI: an optional authority
  (`//` followed by nothing or `localhost`), a path up to `?` or `#`, then options
  `name=value` separated by `&` up to `#`; `%HH` escapes are decoded in each part, and `%00`
  ends the part. The options `mode` (`ro`, `rw`, `rwc`, `memory`, the last one given wins),
  `cache` (`shared`, `private`) and `vfs` must have known values; other options are ignored.
  A URI with an empty path, the path `:memory:` or the mode `memory` names a private database.
  Any other name is a file path, opened for reading and writing and made when missing.
-/

namespace Telemetry

/-- How a database file may be opened. -/
inductive OpenMode where
  /-- Read only; the file must exist. -/
  | readOnly
  /-- Read and write; the file must exist. -/
  | readWrite
  /-- Read and write; the file is made when missing. -/
  | create
  /-- A private database in memory, whatever the path. -/
  | memory
  deriving DecidableEq, Repr

/-- What a data source name opens. -/
inductive DataSource where
  /-- A private database of its own. -/
  | transient
  /-- A database file at a path, opened in a mode. -/
  | file (path : String) (mode : OpenMode)
  deriving DecidableEq, Repr

namespace DataSource

/-- The name once trimmed and stripped of a leading `sqlite://`. -/
def target (dsn : String) : String :=
  let trimmed := Text.trim dsn
  if trimmed.startsWith "sqlite://" then String.ofList (trimmed.toList.drop 9) else trimmed

/-- The value of a hexadecimal digit. -/
def hexDigit? (c : Char) : Option Nat :=
  if c.isDigit then some (c.toNat - '0'.toNat)
  else if 'a' ≤ c && c ≤ 'f' then some (c.toNat - 'a'.toNat + 10)
  else if 'A' ≤ c && c ≤ 'F' then some (c.toNat - 'A'.toNat + 10)
  else none

/-- Decodes `%HH` escapes into bytes, other characters into their UTF-8 bytes. A `%00` ends
the text; a `%` without two hexadecimal digits stands for itself. -/
def unescape : List Char → List UInt8
  | [] => []
  | '%' :: a :: b :: more =>
    match hexDigit? a, hexDigit? b with
    | some x, some y => if x * 16 + y == 0 then [] else (x * 16 + y).toUInt8 :: unescape more
    | _, _ => Utf8.encodeChar '%' ++ unescape (a :: b :: more)
  | c :: rest => Utf8.encodeChar c ++ unescape rest

/-- The text of decoded bytes; bytes that are not UTF-8 stand for the characters of their
values. -/
def text (bytes : List UInt8) : String :=
  (Utf8.decode? bytes).getD (String.ofList (bytes.map fun b => Char.ofNat b.toNat))

/-- The options of a query: items split at `&`, each a name up to the first `=` and the
value after it (empty without `=`); items with an empty name are dropped. -/
def options (query : List Char) : List (String × String) :=
  ((String.ofList query).splitOn "&").filterMap fun item =>
    let cs := item.toList
    let name := text (unescape (cs.takeWhile (· != '=')))
    let value := text (unescape ((cs.dropWhile (· != '=')).drop 1))
    if name.isEmpty then none else some (name, value)

/-- File systems a URI may name with `vfs`. -/
def fileSystems : List String := ["unix", "unix-none", "unix-dotfile", "unix-excl"]

/-- The mode after one option; `none` for a value the option does not know. -/
def applyOption (mode : OpenMode) (opt : String × String) : Option OpenMode :=
  let (name, value) := opt
  if name == "mode" then
    if value == "ro" then some .readOnly
    else if value == "rw" then some .readWrite
    else if value == "rwc" then some .create
    else if value == "memory" then some .memory
    else none
  else if name == "cache" then
    if value == "shared" || value == "private" then some mode else none
  else if name == "vfs" then
    if fileSystems.contains value then some mode
    else if value == "memdb" then some .memory
    else none
  else some mode

/-- What a path and a mode open. -/
def ofPath (path : String) (mode : OpenMode) : DataSource :=
  if mode == .memory || path.isEmpty || path == ":memory:" then .transient else .file path mode

/-- Reads the part of a `file:` URI after the scheme. -/
def ofUri (body : List Char) : Option DataSource := do
  let body ← match body with
    | '/' :: '/' :: r =>
      let host := r.takeWhile (· != '/')
      if host.isEmpty || host == "localhost".toList then some (r.drop host.length) else none
    | _ => some body
  let body := body.takeWhile (· != '#')
  let pathPart := body.takeWhile (· != '?')
  let mode ← (options ((body.drop pathPart.length).drop 1)).foldlM applyOption .create
  pure (ofPath (text (unescape pathPart)) mode)

/-- Reads a data source name; `none` when its URI is malformed. -/
def parse (dsn : String) : Option DataSource :=
  let t := target dsn
  if t.startsWith "file:" then ofUri (t.toList.drop 5)
  else some (ofPath t .create)

end DataSource

end Telemetry

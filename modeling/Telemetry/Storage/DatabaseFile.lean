import Telemetry.Storage.Cell
import Telemetry.Text.Utf8

/-
  Reading database files (SQLite format 3): the header, table b-trees, overflow chains and
  records.

  A file opens with a 100-byte header: the text `SQLite format 3` and a NUL; the page size
  (a power of two above 256 and at most 65536, with the bytes `00 01` standing for 65536);
  write and read versions of at most 2; payload fractions 64, 32 and 32; reserved bytes per
  page that leave at least 480 usable; the page count, trusted when it is not zero and the
  change counter matches its copy, and then at most the pages the file holds; a schema format
  of at most 4; and the text encoding (UTF-8, UTF-16LE or UTF-16BE).

  A table is a b-tree of pages: an interior page (type 5) lists child pages, the right-most
  one in its header; a leaf page (type 13) holds rows in rowid order. A row's payload stays
  in its cell up to a limit set by the usable page size, and the rest follows in a chain of
  overflow pages. A payload is a record: a header of serial types, then the values. The
  schema is the table rooted at page 1, whose page header follows the file header; its rows
  are `(type, name, table name, root page, sql)`.

  Every walk spends fuel from the page count, so pages that loop are refused rather than
  followed forever.
-/

namespace Telemetry

namespace DatabaseFile

/-! ### Bytes -/

/-- The byte at a position; zero past the end, as a short last page reads. -/
def byteAt (bs : ByteArray) (i : Nat) : Nat := ((bs[i]?).map UInt8.toNat).getD 0

/-- A big-endian number of `len` bytes at a position. -/
def bigEndianAt (bs : ByteArray) (i len : Nat) : Nat :=
  (List.range len).foldl (fun acc k => acc * 256 + byteAt bs (i + k)) 0

/-- `len` bytes at a position. -/
def bytesAt (bs : ByteArray) (i len : Nat) : List UInt8 :=
  (List.range len).map fun k => (byteAt bs (i + k)).toUInt8

/-- A varint at a position: up to eight bytes of seven bits each, the high bit asking for
more, then a ninth byte of eight bits. Answers the value and the number of bytes. -/
def varintAt (bs : ByteArray) (i : Nat) : Nat × Nat :=
  let rec go (acc : Nat) : Nat → Nat → Nat × Nat
    | 0, k => (acc * 256 + byteAt bs (i + k), k + 1)
    | left + 1, k =>
      let b := byteAt bs (i + k)
      if b < 128 then (acc * 128 + b, k + 1) else go (acc * 128 + (b - 128)) left (k + 1)
  go 0 8 0

/-- The number of `len` big-endian bytes read as two's complement. -/
def signed (v len : Nat) : Int :=
  if len == 0 then 0
  else if v ≥ Nat.pow 2 (8 * len - 1) then (v : Int) - (Nat.pow 2 (8 * len) : Nat)
  else v

/-! ### Text -/

/-- The UTF-8 bytes of a code point, for any value below `2^21`. -/
def utf8Bytes (c : Nat) : List UInt8 :=
  if c < 0x80 then [c.toUInt8]
  else if c < 0x800 then [(0xC0 + c / 64 % 32).toUInt8, (0x80 + c % 64).toUInt8]
  else if c < 0x10000 then
    [(0xE0 + c / 4096 % 16).toUInt8, (0x80 + c / 64 % 64).toUInt8, (0x80 + c % 64).toUInt8]
  else
    [(0xF0 + c / 262144 % 8).toUInt8, (0x80 + c / 4096 % 64).toUInt8,
      (0x80 + c / 64 % 64).toUInt8, (0x80 + c % 64).toUInt8]

/-- A UTF-16 code unit from two bytes. -/
def unit (little : Bool) (a b : UInt8) : Nat :=
  if little then a.toNat + b.toNat * 256 else a.toNat * 256 + b.toNat

/-- UTF-16 text as UTF-8 bytes. A surrogate takes the next unit as its partner, whatever
that unit is; a surrogate at the very end stands alone, and an odd last byte is dropped. -/
def utf16Bytes (little : Bool) : List UInt8 → List UInt8
  | a :: b :: rest =>
    let c := unit little a b
    if 0xD800 ≤ c && c < 0xE000 then
      match rest with
      | a2 :: b2 :: more =>
        let c2 := unit little a2 b2
        utf8Bytes (c2 % 1024 + c % 64 * 1024 + (c % 1024 / 64 * 64 + 64) * 1024) ++
          utf16Bytes little more
      | _ => utf8Bytes c
    else utf8Bytes c ++ utf16Bytes little rest
  | _ => []
termination_by bs => bs.length
decreasing_by all_goals simp_all <;> omega

/-- Stored text as UTF-8 bytes, by the file's encoding (1 UTF-8, 2 UTF-16LE, 3 UTF-16BE). -/
def textBytes (encoding : Nat) (bytes : List UInt8) : List UInt8 :=
  if encoding == 2 then utf16Bytes true bytes
  else if encoding == 3 then utf16Bytes false bytes
  else bytes

/-! ### Records -/

/-- The width in bytes of a value of a serial type; `none` for the reserved 10 and 11. -/
def serialWidth (t : Nat) : Option Nat :=
  if t ≤ 4 then some t
  else if t == 5 then some 6
  else if t == 6 || t == 7 then some 8
  else if t == 8 || t == 9 then some 0
  else if t == 10 || t == 11 then none
  else some ((t - 12) / 2)

/-- The value of a serial type from its bytes. -/
def cellOf (encoding t : Nat) (bytes : List UInt8) : Cell :=
  let v := bytes.foldl (fun acc b => acc * 256 + b.toNat) 0
  if t == 0 then .null
  else if t ≤ 6 then .integer (signed v bytes.length)
  else if t == 7 then .real ⟨v.toUInt64⟩
  else if t == 8 then .integer 0
  else if t == 9 then .integer 1
  else if t % 2 == 0 then .blob bytes
  else .text (textBytes encoding bytes)

/-- The serial types of a record header that ends at `size`. -/
def serialTypes (bs : ByteArray) (size : Nat) : Nat → Nat → Option (List Nat)
  | 0, _ => none
  | fuel + 1, pos =>
    if pos ≥ size then (if pos == size then some [] else none)
    else
      let (t, k) := varintAt bs pos
      if pos + k > size then none
      else (serialTypes bs size fuel (pos + k)).map (t :: ·)

/-- The values of a record body, one per serial type. -/
def values (encoding : Nat) (bs : ByteArray) : List Nat → Nat → Option (List Cell)
  | [], _ => some []
  | t :: ts, pos => do
    let w ← serialWidth t
    if pos + w > bs.size then none
    let rest ← values encoding bs ts (pos + w)
    pure (cellOf encoding t (bytesAt bs pos w) :: rest)

/-- The cells of a record. -/
def record (encoding : Nat) (payload : List UInt8) : Option (List Cell) := do
  let bs := ByteArray.mk payload.toArray
  let (size, k) := varintAt bs 0
  if size < k || size > bs.size then none
  let types ← serialTypes bs size (size + 1) k
  values encoding bs types size

/-! ### Pages -/

/-- A database file and the geometry its header gives. -/
structure Image where
  data : ByteArray
  pageSize : Nat
  usable : Nat
  pages : Nat
  encoding : Nat

/-- The text that opens every database file. -/
def magic : List UInt8 := "SQLite format 3".toUTF8.toList ++ [0]

/-- A power of two. -/
def isPowerOfTwo (n : Nat) : Bool := n != 0 && Nat.pow 2 n.log2 == n

/-- Reads the header of a database file; `none` when the file is no database this program
can open for writing. -/
def Image.ofBytes? (bs : ByteArray) : Option Image := do
  if bytesAt bs 0 16 != magic || bs.size < 16 then none
  let pageSize := byteAt bs 16 * 256 + byteAt bs 17 * 65536
  if !isPowerOfTwo pageSize || pageSize ≤ 256 || pageSize > 65536 then none
  if byteAt bs 18 > 2 || byteAt bs 19 > 2 then none
  if bytesAt bs 21 3 != [64, 32, 32] then none
  let usable := pageSize - byteAt bs 20
  if usable < 480 then none
  if bigEndianAt bs 44 4 > 4 then none
  let filePages := (bs.size + pageSize - 1) / pageSize
  let counted := bigEndianAt bs 28 4
  let trusted := counted != 0 && bigEndianAt bs 24 4 == bigEndianAt bs 92 4
  if trusted && counted > filePages then none
  let encoding := bigEndianAt bs 56 4 % 4
  pure ⟨bs, pageSize, usable, if trusted then counted else filePages,
    if encoding == 0 then 1 else encoding⟩

namespace Image

/-- The byte at a position of the file. -/
def byte (img : Image) (i : Nat) : Nat := byteAt img.data i

/-- Where page `n` starts. -/
def pageStart (img : Image) (n : Nat) : Nat := (n - 1) * img.pageSize

/-- Where the b-tree header of page `n` starts: after the file header on page 1. -/
def headerStart (img : Image) (n : Nat) : Nat := img.pageStart n + (if n == 1 then 100 else 0)

/-- How much of a payload of `p` bytes a table leaf cell keeps in its page. -/
def keptSize (img : Image) (p : Nat) : Nat :=
  let u := img.usable
  let x := u - 35
  if p ≤ x then p
  else
    let m := (u - 12) * 32 / 255 - 23
    let k := m + (p - m) % (u - 4)
    if k ≤ x then k else m

/-- `need` payload bytes from the chain of overflow pages starting at page `n`. -/
def overflow (img : Image) : Nat → Nat → Nat → Option (List UInt8)
  | _, _, 0 => some []
  | 0, _, _ => none
  | fuel + 1, n, need =>
    if n == 0 || n > img.pages then none
    else
      let start := img.pageStart n
      let chunk := min need (img.usable - 4)
      (img.overflow fuel (bigEndianAt img.data start 4) (need - chunk)).map
        (bytesAt img.data (start + 4) chunk ++ ·)

/-- The payload of the table leaf cell at a position of page `n`. -/
def leafPayload (img : Image) (n pos : Nat) : Option (List UInt8) := do
  let (p, k1) := varintAt img.data pos
  let (_, k2) := varintAt img.data (pos + k1)
  let start := pos + k1 + k2
  let kept := img.keptSize p
  let pageEnd := img.pageStart n + img.usable
  if start + kept + (if kept < p then 4 else 0) > pageEnd then none
  let here := bytesAt img.data start kept
  if kept == p then pure here
  else
    let rest ← img.overflow img.pages (bigEndianAt img.data (start + kept) 4) (p - kept)
    pure (here ++ rest)

/-- The payloads of the rows of the table b-trees rooted at the listed pages, in order;
each page visited spends one unit of fuel. -/
def walk (img : Image) : Nat → List Nat → Option (List (List UInt8))
  | _, [] => some []
  | 0, _ :: _ => none
  | fuel + 1, n :: todo => do
    if n == 0 || n > img.pages then none
    let h := img.headerStart n
    let count := bigEndianAt img.data (h + 3) 2
    let start := img.pageStart n
    let pointer (width i : Nat) := start + bigEndianAt img.data (h + width + 2 * i) 2
    if img.byte h == 13 then
      let cells ← (List.range count).mapM fun i => img.leafPayload n (pointer 8 i)
      let rest ← img.walk fuel todo
      pure (cells ++ rest)
    else if img.byte h == 5 then
      let children := (List.range count).map fun i => bigEndianAt img.data (pointer 12 i) 4
      img.walk fuel (children ++ [bigEndianAt img.data (h + 8) 4] ++ todo)
    else none

/-- The records of the table b-tree rooted at a page, in rowid order. -/
def rows (img : Image) (root : Nat) : Option (List (List Cell)) := do
  let payloads ← img.walk (img.pages + 1) [root]
  payloads.mapM (record img.encoding)

end Image

/-! ### Tables -/

/-- Lower-case ASCII letters, others kept. -/
def lowerAscii (s : String) : String := String.ofList (s.toList.map Char.toLower)

/-- The text of a cell, when it is valid UTF-8 text. -/
def textOf : Cell → Option String
  | .text bs => Utf8.decode? bs
  | _ => none

/-- The state of a scan through a column list: bracket depth, open quote, the item being
read (reversed) and the items read. -/
structure Scan where
  depth : Nat := 1
  quote : Option Char := none
  item : List Char := []
  items : List (List Char) := []
  done : Bool := false

/-- One character of a column list. -/
def Scan.step (s : Scan) (c : Char) : Scan :=
  if s.done then s
  else
    match s.quote with
    | some q => { s with quote := if c == q then none else some q, item := c :: s.item }
    | none =>
      if c == '\'' || c == '"' || c == '`' then { s with quote := some c, item := c :: s.item }
      else if c == '[' then { s with quote := some ']', item := c :: s.item }
      else if c == '(' then { s with depth := s.depth + 1, item := c :: s.item }
      else if c == ')' && s.depth == 1 then
        { s with done := true, items := s.items ++ [s.item.reverse], item := [] }
      else if c == ')' then { s with depth := s.depth - 1, item := c :: s.item }
      else if c == ',' && s.depth == 1 then
        { s with items := s.items ++ [s.item.reverse], item := [] }
      else { s with item := c :: s.item }

/-- Words that open a table constraint rather than a column. -/
def constraintWords : List String := ["constraint", "primary", "unique", "check", "foreign"]

/-- The name a column definition starts with, unquoted and in lower case; `none` for a
table constraint. -/
def columnName (item : List Char) : Option String :=
  let cs := item.dropWhile Char.isWhitespace
  match cs with
  | q :: rest =>
    if q == '"' || q == '`' || q == '\'' then
      some (lowerAscii (String.ofList (rest.takeWhile (· != q))))
    else if q == '[' then some (lowerAscii (String.ofList (rest.takeWhile (· != ']'))))
    else
      let word := lowerAscii (String.ofList (cs.takeWhile fun c => !c.isWhitespace && c != '('))
      if constraintWords.contains word then none else some word
  | [] => none

/-- The column names of a `CREATE TABLE` statement, in order and in lower case. -/
def columnNames (sql : String) : List String :=
  let body := (sql.toList.dropWhile (· != '(')).drop 1
  let s := body.foldl Scan.step {}
  s.items.filterMap columnName

/-- What a database file holds under one table name. -/
inductive TableImage where
  /-- No table of that name. -/
  | absent
  /-- The table's column names in order, and its records, unless its pages cannot be read. -/
  | found (columns : List String) (records : Option (List (List Cell)))

/-- Reads the table of a name (in any letter case) from a database file; `none` when the
file is no database, or its schema cannot be read. -/
def tableImage? (bs : ByteArray) (name : String) : Option TableImage := do
  let img ← Image.ofBytes? bs
  let schema ← img.rows 1
  let isTable (row : List Cell) : Bool :=
    (row[0]?.bind textOf) == some "table" &&
      ((row[1]?.bind textOf).map lowerAscii) == some (lowerAscii name)
  match schema.find? isTable with
  | none => pure .absent
  | some row =>
    let root : Nat := match row[3]? with
      | some (Cell.integer r) => r.toNat
      | _ => 0
    let sql := (row[4]?.bind textOf).getD ""
    pure (.found (columnNames sql) (img.rows root))

end DatabaseFile

end Telemetry

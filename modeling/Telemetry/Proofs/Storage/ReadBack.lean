import Mathlib
import Telemetry.Storage.Backend
import Telemetry.Proofs.Disk.Replace
import Telemetry.Proofs.Except
import Telemetry.Proofs.Metric.WireText

/-
  What the backends read back after a snapshot is written.

  A snapshot file holds the JSON text of the records. Once its replacement goes through, the
  file reads as that text (`Disk.read_of_replace`), which is not blank and reads as the
  records whenever their values read back (`Volume.read_write_file`). A database keeps one
  row per record: into a table without rows they go in order (`Table.write_fresh`), and each
  row reads back as its record with the sign of a zero dropped, the one change the value
  column makes (`Row.toRecord_ofRecord`, `Volume.read_write_database`). A file write touches
  only the disk and a database write only the tables, so with the backends the server sets up,
  a database and then a file, a restore after writing reads the records back from each
  (`Persistence.restore_writeAll`).
-/

namespace Telemetry

/-- A double as the value column keeps it: a zero loses its sign. -/
def Binary64.dropZeroSign (x : Binary64) : Binary64 :=
  if x.isZero then Binary64.zero false else x

/-- A record as a database row keeps it. -/
def Record.dropZeroSign (r : Record) : Record :=
  { r with value := r.value.map Binary64.dropZeroSign }

/-! ## Rows -/

namespace Row

@[simp] theorem id_ofRecord (r : Record) : (ofRecord r).id = .text (Utf8.encode r.id) := rfl

theorem textField_encode (s : String) : textField (.text (Utf8.encode s)) = .ok s := by
  simp [textField, Utf8.decode?_encode]

theorem realField_value (v : Option Binary64) (hv : ∀ x ∈ v, x.isNaN = false) :
    realField ((v.map valueCell).getD .null) = .ok (v.map Binary64.dropZeroSign) := by
  cases v with
  | none => rfl
  | some x =>
    have hx : x.isNaN = false := hv x rfl
    simp [valueCell, hx, realField, Binary64.dropZeroSign]

theorem integerField_delta (d : Option Int64) :
    integerField ((d.map fun d => Cell.integer d.toInt).getD .null) = .ok d := by
  cases d <;> simp [integerField]

/-- A record stored as a row reads back with the sign of a zero dropped. -/
theorem toRecord_ofRecord {r : Record} (hr : ∀ x ∈ r.value, x.isNaN = false) :
    (ofRecord r).toRecord = .ok r.dropZeroSign := by
  simp [toRecord, ofRecord, textField_encode, realField_value r.value hr, integerField_delta,
    bind, Except.bind, pure, Except.pure, Record.dropZeroSign]

end Row

/-! ## The metrics table -/

namespace Table

theorem upsert_of_new {t : Table} {row : Row} (h : ∀ r ∈ t.rows, r.id ≠ row.id) :
    t.upsert row = { t with rows := t.rows ++ [row] } := by
  have hany : (t.rows.any fun r => r.id == row.id && r.type == row.type) = false := by
    rw [List.any_eq_false]
    intro r hr
    simp [h r hr]
  simp only [upsert, hany, Bool.false_eq_true, if_false]

/-- Records of new, distinct names are upserted as rows after the stored ones, in order. -/
theorem foldl_upsert_of_new {t : Table} {rs : List Record} (hnd : (rs.map Record.id).Nodup)
    (hnew : ∀ row ∈ t.rows, ∀ r ∈ rs, row.id ≠ (Row.ofRecord r).id) :
    rs.foldl (fun acc r => acc.upsert (Row.ofRecord r)) t =
      { t with rows := t.rows ++ rs.map Row.ofRecord } := by
  induction rs generalizing t with
  | nil => simp
  | cons r rs ih =>
    simp only [List.map_cons, List.nodup_cons] at hnd
    rw [List.foldl_cons, upsert_of_new fun row hrow => hnew row hrow r List.mem_cons_self]
    -- the new row's name differs from every later record's
    have hnew' : ∀ row ∈ t.rows ++ [Row.ofRecord r], ∀ r' ∈ rs, row.id ≠ (Row.ofRecord r').id := by
      intro row hrow r' hr'
      rcases List.mem_append.1 hrow with hrow | hrow
      · exact hnew row hrow r' (List.mem_cons_of_mem _ hr')
      · rw [List.mem_singleton] at hrow
        subst hrow
        intro hid
        simp only [Row.id_ofRecord, Cell.text.injEq] at hid
        exact hnd.1 (Utf8.encode_injective hid ▸ List.mem_map_of_mem hr')
    rw [ih hnd.2 hnew']
    simp

/-- Written to a table without rows, records of distinct names become its rows in order; the
write needs the table's columns, and its pages when there is a record. -/
theorem write_fresh {t t' : Table} {rs : List Record} (hrows : t.rows = [])
    (hnd : (rs.map Record.id).Nodup) (h : t.write rs = .ok t') :
    t' = { t with rows := rs.map Row.ofRecord } ∧ t.columnsFound = true ∧
      (t.pagesRead = true ∨ rs = []) := by
  unfold write at h
  split at h
  · cases h
  · rename_i hok
    simp only [Bool.or_eq_true, Bool.not_eq_true', Bool.and_eq_true, not_or, not_and,
      Bool.not_eq_false] at hok
    cases h
    refine ⟨by rw [foldl_upsert_of_new hnd (by simp [hrows]), hrows, List.nil_append], ?_, ?_⟩
    · simpa using hok.1
    · cases hp : t.pagesRead
      · exact .inr (List.isEmpty_iff.1 (hok.2 hp))
      · exact .inl rfl

/-- Rows of records whose values are numbers, each record reading as a metric value once its
zero signs are dropped, read back as those records. -/
theorem read_rows {t : Table} (hc : t.columnsFound = true) (hp : t.pagesRead = true)
    {rs : List Record}
    (hrs : ∀ r ∈ rs, (∀ x ∈ r.value, x.isNaN = false) ∧ ∃ v, r.dropZeroSign.toValue = .ok v) :
    ({ t with rows := rs.map Row.ofRecord } : Table).read = .ok (rs.map Record.dropZeroSign) := by
  simp only [read, hc, hp, Bool.not_true, Bool.or_self, Bool.false_eq_true, if_false]
  rw [Except.mapM_eq_ok, List.forall₂_map_left_iff, List.forall₂_map_right_iff]
  apply List.forall₂_same.2
  intro r hr
  obtain ⟨hnan, v, hv⟩ := hrs r hr
  simp [Row.toRecord_ofRecord hnan, hv, bind, Except.bind, pure, Except.pure]

end Table

/-! ## Backends -/

namespace Volume

/-- What a restore takes from a backend: its records, or nothing when the read fails. -/
def restored (v : Volume) (b : Backend) : List Record :=
  match v.read b with
  | .ok rs => rs
  | .error _ => []

theorem restored_of_read {v : Volume} {b : Backend} {rs : List Record} (h : v.read b = .ok rs) :
    v.restored b = rs := by
  simp [restored, h]

/-- A file write on a device that refuses nothing is the replacement of the file. -/
theorem write_file (v : Volume) (path : String) (rs : List Record) :
    v.write (.file path) rs =
      match v.disk.replace path (Record.listToJsonText rs).toUTF8 with
      | (disk, none) => (.ok (), { v with disk })
      | (disk, some _) => (.error .io, { v with disk }) := rfl

/-- A database write on a device that refuses nothing stores the records, when the database
is writable or there are none. -/
theorem write_database (v : Volume) (id : DatabaseId) (w : Bool) (rs : List Record) :
    v.write (.database id w) rs =
      if w || rs.isEmpty then
        match (v.table id).write rs with
        | .ok t => (.ok (), v.setTable id t)
        | .error e => (.error e, v)
      else (.error .sqlite, v) := rfl

@[simp] theorem table_setTable (v : Volume) (id : DatabaseId) (t : Table) :
    (v.setTable id t).table id = t := by
  rw [table, setTable, List.lookup_append, lookup_filter_of_ne (by simp +contextual)]
  simp

@[simp] theorem disk_setTable (v : Volume) (id : DatabaseId) (t : Table) :
    (v.setTable id t).disk = v.disk := rfl

theorem disk_write_database (v : Volume) (id : DatabaseId) (w : Bool) (rs : List Record) :
    (v.write (.database id w) rs).2.disk = v.disk := by
  rw [write_database]
  split
  · split <;> rfl
  · rfl

theorem databases_write_file (v : Volume) (path : String) (rs : List Record) :
    (v.write (.file path) rs).2.databases = v.databases := by
  rw [write_file]
  split <;> rfl

/-- Writing a file depends on the disk alone. -/
theorem write_file_of_disk {v v' : Volume} (hd : v.disk = v'.disk) (path : String)
    (rs : List Record) : (v.write (.file path) rs).1 = (v'.write (.file path) rs).1 ∧
      (v.write (.file path) rs).2.disk = (v'.write (.file path) rs).2.disk := by
  simp only [write_file, hd]
  split <;> exact ⟨rfl, rfl⟩

theorem read_database_of_databases {v v' : Volume} (hd : v.databases = v'.databases)
    (id : DatabaseId) (w : Bool) : v.read (.database id w) = v'.read (.database id w) := by
  simp [read, table, hd]

theorem encode_listToJsonText_head (rs : List Record) :
    ∃ t, Utf8.encode (Record.listToJsonText rs) = 0x5b :: t := by
  simp only [Record.listToJsonText, Json.arrayText, Utf8.encode_append]
  exact ⟨_, by rw [show Utf8.encode "[" = [0x5b] by decide]; rfl⟩

/-- A snapshot file holding the JSON text of records reads back as those records, when
their values read back. -/
theorem read_file_of_text {v : Volume} {path : String} {rs : List Record}
    (h : v.disk.read path = .ok (Record.listToJsonText rs).toUTF8)
    (hrs : ∀ r ∈ rs, r.ValuesReadBack) : v.read (.file path) = .ok rs := by
  obtain ⟨t, ht⟩ := encode_listToJsonText_head rs
  -- the text starts with a bracket, so the file is not blank
  have hblank : (Record.listToJsonText rs).toUTF8.toList.all isAsciiBlank = false := by
    rw [Utf8.toUTF8_toList, ht]
    simp [isAsciiBlank]
  have hjson : (Json.read? (Record.listToJsonText rs).toUTF8.toList >>= Record.listOfJson?) =
      some rs := Record.listOfJson?_readText_listToJsonText hrs
  simp only [read, fileRecords, h, hblank, Bool.false_eq_true, if_false, hjson]

/-- A snapshot file whose replacement went through reads back as its records, when their
values read back. -/
theorem read_write_file {v : Volume} {path : String} {rs : List Record}
    (h : (v.write (.file path) rs).1 = .ok ()) (hrs : ∀ r ∈ rs, r.ValuesReadBack) :
    (v.write (.file path) rs).2.read (.file path) = .ok rs := by
  obtain ⟨disk, hrep⟩ : ∃ disk,
      v.disk.replace path (Record.listToJsonText rs).toUTF8 = (disk, none) := by
    rw [write_file] at h
    split at h
    · exact ⟨_, ‹_›⟩
    · cases h
  have hwrite : (v.write (.file path) rs).2 = { v with disk } := by
    rw [write_file, hrep]
  rw [hwrite]
  exact read_file_of_text (Disk.read_of_replace hrep) hrs

/-- A database without rows, written with records of distinct names whose values are numbers
and make metric values, reads back those records with zero signs dropped; with no record,
it reads back nothing or fails. -/
theorem read_write_database {v : Volume} {id : DatabaseId} {w : Bool} {rs : List Record}
    (hrows : (v.table id).rows = []) (hnd : (rs.map Record.id).Nodup)
    (h : (v.write (.database id w) rs).1 = .ok ())
    (hrs : ∀ r ∈ rs, (∀ x ∈ r.value, x.isNaN = false) ∧ ∃ v, r.dropZeroSign.toValue = .ok v) :
    (v.write (.database id w) rs).2.restored (.database id w) = rs.map Record.dropZeroSign := by
  simp only [restored, write_database] at h ⊢
  by_cases hw : (w || rs.isEmpty) = true
  · rw [if_pos hw] at h ⊢
    cases ht : (v.table id).write rs with
    | error e => simp [ht] at h
    | ok t' =>
      obtain ⟨rfl, hc, hp⟩ := Table.write_fresh hrows hnd ht
      simp only [read, table_setTable]
      rcases hp with hp | rfl
      · rw [Table.read_rows hc hp hrs]
      · -- no record: the table reads back nothing, or fails when its pages are unread
        simp only [List.map_nil, Table.read, List.mapM_nil]
        split_ifs <;> rfl
  · rw [if_neg hw] at h
    cases h

end Volume

/-! ## The backends the server sets up -/

namespace Persistence

/-- A database, if one opened, then a snapshot file, if one is named. -/
def of (db : Option (DatabaseId × Bool)) (file : Option String) : Persistence :=
  ⟨(db.map fun d => Backend.database d.1 d.2).toList ++ (file.map Backend.file).toList⟩

theorem restore_eq (p : Persistence) (v : Volume) : p.restore v = p.backends.flatMap v.restored :=
  rfl

/-- After a snapshot of records with distinct names is written to a new database and a file
that both take it, a restore reads the records back from each: from the database with zero
signs dropped, then from the file as they were. -/
theorem restore_writeAll {db : Option (DatabaseId × Bool)} {file : Option String} {v : Volume}
    {rs : List Record} (hnd : (rs.map Record.id).Nodup)
    (hfresh : ∀ d ∈ db, (v.table d.1).rows = [])
    (hwrite : ∀ b ∈ (of db file).backends, (v.write b rs).1 = .ok ())
    (hrs : ∀ r ∈ rs, (∀ x ∈ r.value, x.isNaN = false) ∧ ∃ v, r.dropZeroSign.toValue = .ok v)
    (hback : file.isSome → ∀ r ∈ rs, r.ValuesReadBack) :
    (of db file).restore ((of db file).writeAll v rs) =
      (if db.isSome then rs.map Record.dropZeroSign else []) ++ (if file.isSome then rs else []) := by
  -- the database is written first, and the file write after it sees the same disk
  have hfile : ∀ path (v' : Volume), v'.disk = v.disk → file = some path →
      (v'.write (.file path) rs).2.restored (.file path) = rs := by
    intro path v' hd hf
    subst hf
    have hw := (Volume.write_file_of_disk hd path rs).1
    rw [hwrite (.file path) (by simp [of])] at hw
    exact Volume.restored_of_read (Volume.read_write_file hw (hback rfl))
  rw [restore_eq]
  cases db with
  | none =>
    cases file with
    | none => rfl
    | some path =>
      simp [of, writeAll, hfile path v rfl rfl]
  | some d =>
    obtain ⟨id, w⟩ := d
    have hrows : (v.table id).rows = [] := hfresh (id, w) rfl
    have hdb := Volume.read_write_database hrows hnd (hwrite (.database id w) (by simp [of])) hrs
    cases file with
    | none =>
      simpa [of, writeAll] using hdb
    | some path =>
      have hread := hfile path _ (Volume.disk_write_database v id w rs) rfl
      -- the file write keeps the database's table
      have hdb' : ((v.write (.database id w) rs).2.write (.file path) rs).2.restored
          (.database id w) = rs.map Record.dropZeroSign := by
        rw [Volume.restored, Volume.read_database_of_databases (Volume.databases_write_file _ path rs)]
        exact hdb
      simp [of, writeAll, hread, hdb']

end Persistence

end Telemetry

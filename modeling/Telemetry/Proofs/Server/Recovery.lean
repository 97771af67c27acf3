import Mathlib
import Telemetry.Proofs.Server.Restore

/-
  What a restore recovers, from any backends and whatever they hold.

  A restore reads the backends in their configured order, the database before the snapshot
  file as the server sets them up (`Service.backends_build`), and joins what the readable
  ones hold; a backend whose read fails gives nothing (`Volume.restored`). The store is then
  built anew: each name gets the value of its last record in the joined list that reads as a
  value (`Record.lastValue`, `Store.get?_ofRecords`), and the answer is the number of
  distinct names among those records (`Store.size_ofRecords`). Both come from one fold:
  writing records over a store gives each name its last readable record, or else keeps its
  old value (`Store.get?_putRecords`). A record that is no value is skipped, so an earlier
  record of its name survives it.

  What a backend gives: a missing or blank snapshot file reads as no records, a file that is
  no JSON array of records fails (`Volume.read_file_not_records`), and a database table fails
  to read when any one of its rows holds a record that is no value
  (`Table.read_eq_error_of_corrupt`). Main statement: `Service.restore_last_readable`.
-/

namespace Telemetry

/-! ## The last readable record of a name -/

namespace Record

/-- The value a list of records gives a name: that of the last record of the name that reads
as a value. -/
def lastValue (rs : List Record) (n : String) : Option Value :=
  (rs.filterMap fun r => if r.id = n then r.toValue.toOption else none).getLast?

theorem lastValue_cons (r : Record) (rs : List Record) (n : String) :
    lastValue (r :: rs) n =
      (lastValue rs n).or (if r.id = n then r.toValue.toOption else none) := by
  unfold lastValue
  rw [List.filterMap_cons]
  split
  · next h => rw [h, Option.or_none]
  · next v h =>
    rw [h, List.getLast?_cons]
    cases (rs.filterMap fun r => if r.id = n then r.toValue.toOption else none).getLast? <;> rfl

/-- A name has a value exactly when some record of it reads as a value. -/
theorem isSome_lastValue_iff {rs : List Record} {n : String} :
    (lastValue rs n).isSome ↔ n ∈ (rs.filter fun r => r.toValue.toOption.isSome).map Record.id := by
  simp only [lastValue, List.getLast?_isSome, ne_eq, List.filterMap_eq_nil_iff, not_forall,
    List.mem_map, List.mem_filter]
  constructor
  · rintro ⟨r, hr, hn⟩
    by_cases h : r.id = n
    · rw [if_pos h] at hn
      exact ⟨r, ⟨hr, Option.isSome_iff_ne_none.2 hn⟩, h⟩
    · exact absurd (if_neg h) hn
  · rintro ⟨r, ⟨hr, hv⟩, rfl⟩
    exact ⟨r, hr, by rw [if_pos rfl]; exact Option.isSome_iff_ne_none.1 hv⟩

end Record

namespace Store

theorem get?_putRecords_single (s : Store) (r : Record) (n : String) :
    (s.putRecords [r]).get? n = (if r.id = n then r.toValue.toOption else none).or (s.get? n) := by
  simp only [putRecords, List.foldl_cons, List.foldl_nil]
  cases hv : r.toValue with
  | ok v =>
    by_cases h : r.id = n
    · subst h
      simp [Except.toOption]
    · simp [h, Ne.symm h]
  | error e => by_cases h : r.id = n <;> simp [h, Except.toOption]

/-- Writing records over a store gives each name its last readable record, and keeps the old
value of a name that none of them gives one. -/
theorem get?_putRecords (s : Store) (rs : List Record) (n : String) :
    (s.putRecords rs).get? n = (Record.lastValue rs n).or (s.get? n) := by
  induction rs generalizing s with
  | nil => simp [putRecords, Record.lastValue]
  | cons r rs ih =>
    -- the first record is written first, so a later readable record of its name wins
    have hcons : s.putRecords (r :: rs) = (s.putRecords [r]).putRecords rs := putRecords_append s [r] rs
    rw [hcons, ih, get?_putRecords_single, Record.lastValue_cons, Option.or_assoc]

/-- A store built from records holds, under each name, its last readable record's value. -/
theorem get?_ofRecords (rs : List Record) (n : String) :
    (ofRecords rs).get? n = Record.lastValue rs n := by
  rw [ofRecords_eq_putRecords, get?_putRecords]
  simp [get?]

/-- A store built from records holds one value for each name that some readable record has. -/
theorem size_ofRecords (rs : List Record) :
    (ofRecords rs).size = ((rs.filter fun r => r.toValue.toOption.isSome).map Record.id).dedup.length := by
  have hnd : (ofRecords rs).keys.Nodup := nodup_keys_putRecords rs (by simp [keys])
  -- its names are those of the readable records, each once
  have hmem : ∀ n, n ∈ (ofRecords rs).keys ↔
      n ∈ ((rs.filter fun r => r.toValue.toOption.isSome).map Record.id).dedup := by
    intro n
    rw [mem_keys_iff, get?_ofRecords, List.mem_dedup, Record.isSome_lastValue_iff]
  have hperm := (List.perm_ext_iff_of_nodup hnd (List.nodup_dedup _)).2 hmem
  rw [size, ← hperm.length_eq, keys, List.length_map]

end Store

/-! ## What each backend gives -/

namespace Volume

variable {v : Volume} {path : String} {bytes : ByteArray}

theorem read_file_missing (h : v.disk.read path = .error .missing) :
    v.read (.file path) = .ok [] := by
  simp [read, fileRecords, h]

theorem read_file_blank (h : v.disk.read path = .ok bytes)
    (hb : bytes.toList.all isAsciiBlank = true) : v.read (.file path) = .ok [] := by
  simp [read, fileRecords, h, hb]

/-- A snapshot file that is neither blank nor a JSON array of records fails to read. -/
theorem read_file_not_records (h : v.disk.read path = .ok bytes)
    (hb : bytes.toList.all isAsciiBlank = false)
    (hj : (Json.read? bytes.toList >>= Record.listOfJson?) = none) :
    v.read (.file path) = .error .json := by
  simp only [read, fileRecords, h, hb, Bool.false_eq_true, if_false, hj]

/-- Writing the database header answers the database of the place, or fails. -/
theorem database_of_put_header {v' : Volume} {place : List String} {w : Bool} {t : Table}
    {b : Backend}
    (h : (match v.disk.put place Volume.databaseHeader with
      | .ok disk => Except.ok (Backend.database (DatabaseId.file place) w,
          ({ v with disk } : Volume).setTable (DatabaseId.file place) t)
      | .error _ => Except.error StorageError.sqlite) = .ok (b, v')) :
    b = .database (.file place) w := by
  split at h
  · cases h
    rfl
  · cases h

/-- Opening a database file answers the database of the place its path reaches. -/
theorem openFile_eq_ok {v' : Volume} {mode : OpenMode} {b : Backend}
    (h : v.openFile path mode = .ok (b, v')) :
    ∃ place, b = .database (.file place) (mode != .readOnly) := by
  unfold Volume.openFile at h
  split at h
  · cases h
  · next place _ =>
    refine ⟨place, ?_⟩
    simp only at h
    by_cases hopen : (v.databases.lookup (.file place)).isSome
    · -- a database already open is shared
      rw [if_pos hopen] at h
      cases h
      rfl
    · rw [if_neg hopen] at h
      by_cases hro : (!mode != OpenMode.readOnly) = true
      · -- only a database already open may be opened read only
        rw [if_pos hro] at h
        cases h
      rw [if_neg hro] at h
      cases hf : v.disk.fileAt? place with
      | some bytes =>
        -- an empty file becomes a database, any other is read as one
        simp only [hf] at h
        split_ifs at h
        · exact database_of_put_header h
        · split at h
          · cases h
            rfl
          · cases h
      | none =>
        -- a missing file is made when the mode allows
        simp only [hf] at h
        by_cases hmake : (v.disk.isDir place || mode != OpenMode.create) = true
        · rw [if_pos hmake] at h
          cases h
        · rw [if_neg hmake] at h
          exact database_of_put_header h

/-- A data source opens as a database backend, private or a file. -/
theorem openDatabase_eq_ok {v' : Volume} {dsn : String} {b : Backend}
    (h : v.openDatabase dsn = (.ok b, v')) : ∃ id w, b = .database id w := by
  unfold Volume.openDatabase at h
  split at h
  · simp at h
  · simp only at h
    split at h
    · next hopen =>
      simp only [Prod.mk.injEq, Except.ok.injEq] at h
      obtain ⟨rfl, -⟩ := h
      split at hopen
      · cases hopen
      · cases hopen
        exact ⟨_, _, rfl⟩
      · obtain ⟨place, rfl⟩ := openFile_eq_ok hopen
        exact ⟨_, _, rfl⟩
    · simp at h

end Volume

/-- A table fails to read when any one of its rows holds a record that is no value. -/
theorem Table.read_eq_error_of_corrupt {t : Table} {row : Row} {r : Record} {e : MetricError}
    (hrow : row ∈ t.rows) (hr : row.toRecord = .ok r) (he : r.toValue = .error e) :
    ∃ err, t.read = .error err := by
  unfold Table.read
  split
  · exact ⟨_, rfl⟩
  · refine Except.mapM_eq_error_of_mem (e := .corruptRow r.id ((MetricError.message? e).getD ""))
      hrow ?_
    simp only [hr, he, bind, Except.bind]
    rfl

/-! ## The restore -/

namespace Service

/-- The server reads the database, when it opens, before the snapshot file. -/
theorem backends_build {settings : ServerSettings} {v : Volume} {s : Service}
    (h : build settings v = .ok s) : ∃ db, s.persistence = Persistence.of db settings.storeFile := by
  obtain ⟨k, -, hs⟩ := Except.bind_eq_ok.1 h
  rw [← Except.pure_eq_ok.1 hs]
  -- the database, when named and opened, comes first
  split
  · next dsn _ =>
    split
    · next b v' hopen =>
      obtain ⟨id, w, rfl⟩ := Volume.openDatabase_eq_ok hopen
      exact ⟨some (id, w), by cases settings.storeFile <;> rfl⟩
    · exact ⟨none, by cases settings.storeFile <;> rfl⟩
  · exact ⟨none, by cases settings.storeFile <;> rfl⟩

/-- **What a restore recovers.** From any backends and whatever they hold, a restore replaces
the store and nothing else. It binds each name to the value of its last record that reads
as a value, among the records of the readable backends joined in their configured order, and
answers the number of distinct names so bound. A missing or blank snapshot file gives no
records, a file that is no JSON array of records fails to read, and so does a database whose
table holds any one row that is no value; a backend that fails gives nothing. The server
configures the database before the file. -/
theorem restore_last_readable (s : Service) :
    s.restore.2 = { s with store := s.restore.2.store } ∧
    (∀ n, s.restore.2.store.get? n =
      Record.lastValue (s.persistence.backends.flatMap s.volume.restored) n) ∧
    s.restore.1 = (((s.persistence.backends.flatMap s.volume.restored).filter
      fun r => r.toValue.toOption.isSome).map Record.id).dedup.length ∧
    (∀ path, s.volume.disk.read path = .error .missing → s.volume.read (.file path) = .ok []) ∧
    (∀ path bytes, s.volume.disk.read path = .ok bytes →
      bytes.toList.all Volume.isAsciiBlank = true → s.volume.read (.file path) = .ok []) ∧
    (∀ path bytes, s.volume.disk.read path = .ok bytes →
      bytes.toList.all Volume.isAsciiBlank = false →
      (Json.read? bytes.toList >>= Record.listOfJson?) = none →
      s.volume.read (.file path) = .error .json) ∧
    (∀ id w row r e, row ∈ (s.volume.table id).rows → row.toRecord = .ok r →
      r.toValue = .error e → ∃ err, s.volume.read (.database id w) = .error err) ∧
    (∀ settings v t, build settings v = .ok t →
      ∃ db, t.persistence = Persistence.of db settings.storeFile) := by
  refine ⟨rfl, fun n => ?_, ?_, fun _ => Volume.read_file_missing,
    fun _ _ => Volume.read_file_blank, fun _ _ => Volume.read_file_not_records,
    fun _ _ _ _ _ hrow hr he => Table.read_eq_error_of_corrupt hrow hr he,
    fun _ _ _ => backends_build⟩
  · rw [restore_eq, Store.get?_ofRecords, Persistence.restore_eq]
  · rw [restore_eq, Store.size_ofRecords, Persistence.restore_eq]

end Service

end Telemetry

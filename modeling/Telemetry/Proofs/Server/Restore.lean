import Mathlib
import Telemetry.Server.Service
import Telemetry.Proofs.Store.Snapshot
import Telemetry.Proofs.Storage.ReadBack

/-
  Restoring what a flush wrote.

  A flush writes the signed snapshot of the store to every backend; a restore rebuilds the
  store from what the backends read back, a later record of a name winning. With the
  backends the server sets up (a new database, then a snapshot file, at least one of them)
  and writes that go through, the restore after a flush gives back the flushed store from
  any store it starts from, and answers its size (`restore_after_flush`). The file brings
  every value back as it was, provided each gauge's JSON text reads back as the gauge
  (`Binary64.ReadsBack`). The database does not quite: its value column keeps a zero without
  its sign, so a gauge at `-0` comes back as `+0`, and with the database alone that is what
  the restored store holds (`restore_after_flush_drops_zero_sign`). With both, the file is
  read last and its values win.

  The argument: a reachable store has distinct names and finite gauges
  (`Store.Reachable.nodup_keys`, `Store.Reachable.gaugesFinite`), so every backend reads
  back the snapshot's records, from the database with zero signs dropped
  (`Persistence.restore_writeAll`), and the snapshot rebuilds the store of those values
  (`Store.putRecords_snapshot`), the file's records then replacing the database's in place
  (`Store.putRecords_snapshot_over`).
-/

namespace Telemetry

/-- A value as the database keeps it: a gauge zero loses its sign. -/
def Value.dropZeroSign : Value → Value
  | .gauge x => .gauge x.dropZeroSign
  | v => v

/-- A store's values as the database keeps them. -/
def Store.dropZeroSigns (s : Store) : Store := ⟨s.entries.map fun p => (p.1, p.2.dropZeroSign)⟩

@[simp] theorem Store.size_dropZeroSigns (s : Store) : s.dropZeroSigns.size = s.size := by
  simp [dropZeroSigns, Store.size]

theorem Binary64.isNaN_of_isFinite {x : Binary64} (h : x.isFinite = true) : x.isNaN = false := by
  simp only [isFinite, bne_iff_ne, ne_eq] at h
  simp [isNaN, h]

theorem Binary64.isFinite_dropZeroSign {x : Binary64} (h : x.isFinite = true) :
    x.dropZeroSign.isFinite = true := by
  unfold dropZeroSign
  split
  · decide
  · exact h

/-! ## The snapshot's records -/

section Records

variable {v : Value} (n : String) (signer : Signer)

theorem Value.finite_dropZeroSign (hv : v.Finite) : v.dropZeroSign.Finite := by
  cases v with
  | gauge x => exact Binary64.isFinite_dropZeroSign hv
  | counter d => trivial

theorem Value.dropZeroSign_toRecordWith (v : Value) (hash : String) :
    (v.toRecordWith n hash).dropZeroSign = v.dropZeroSign.toRecordWith n hash := by
  cases v <;> rfl

@[simp] theorem Value.value_toRecord_gauge (x : Binary64) :
    ((Value.gauge x).toRecord n signer).value = some x := rfl

@[simp] theorem Value.value_toRecord_counter (d : Int64) :
    ((Value.counter d).toRecord n signer).value = none := rfl

/-- The record of a finite value, its zero sign dropped, reads back as the value with its zero
sign dropped. -/
theorem toValue_dropZeroSign_toRecord (hv : v.Finite) :
    (v.toRecord n signer).dropZeroSign.toValue = .ok v.dropZeroSign := by
  rw [Value.toRecord, Value.dropZeroSign_toRecordWith]
  exact Store.toValue_toRecordWith (Value.finite_dropZeroSign hv) n _

theorem not_isNaN_of_toRecord (hv : v.Finite) :
    ∀ x ∈ (v.toRecord n signer).value, x.isNaN = false := by
  cases v with
  | gauge x =>
    intro y hy
    rw [Value.value_toRecord_gauge, Option.mem_def, Option.some.injEq] at hy
    subst hy
    exact Binary64.isNaN_of_isFinite hv
  | counter d => simp

end Records

namespace Store

variable {s : Store} {signer : Signer}

theorem map_id_snapshot (s : Store) (signer : Signer) :
    (s.snapshot signer).map Record.id = s.keys := by
  simp [snapshot, keys, Function.comp_def, id_toRecord]

/-- Every record of a store with finite gauges is a number or none, and reads as a metric value
with its zero signs dropped. -/
theorem snapshot_stored (hs : s.GaugesFinite) :
    ∀ r ∈ s.snapshot signer, (∀ x ∈ r.value, x.isNaN = false) ∧
      ∃ v, r.dropZeroSign.toValue = .ok v := by
  intro r hr
  obtain ⟨p, hp, rfl⟩ := List.mem_map.1 hr
  exact ⟨not_isNaN_of_toRecord p.1 signer (hs p hp),
    _, toValue_dropZeroSign_toRecord p.1 signer (hs p hp)⟩

theorem snapshot_valuesReadBack (hback : ∀ n x, s.get? n = some (.gauge x) → x.ReadsBack)
    (hnd : s.keys.Nodup) : ∀ r ∈ s.snapshot signer, r.ValuesReadBack := by
  intro r hr
  obtain ⟨⟨n, v⟩, hp, rfl⟩ := List.mem_map.1 hr
  have hget : s.get? n = some v := get?_of_mem hnd hp
  exact Record.valuesReadBack_toRecordWith (fun x hx => hback n x (hx ▸ hget)) n _

/-- The snapshot rebuilds the store. -/
theorem putRecords_own_snapshot (hnd : s.keys.Nodup) (hs : s.GaugesFinite) :
    ({} : Store).putRecords (s.snapshot signer) = s := by
  have h := @putRecords_snapshot s signer id id hnd
    fun p hp => ⟨id_toRecord p.2 p.1 signer, toValue_toRecord (hs p hp) p.1 signer⟩
  simpa using h

/-- The snapshot with its zero signs dropped rebuilds the store with its zero signs dropped. -/
theorem putRecords_snapshot_dropZeroSign (hnd : s.keys.Nodup) (hs : s.GaugesFinite) :
    ({} : Store).putRecords ((s.snapshot signer).map Record.dropZeroSign) = s.dropZeroSigns :=
  putRecords_snapshot hnd fun p hp =>
    ⟨id_toRecord p.2 p.1 signer, toValue_dropZeroSign_toRecord p.1 signer (hs p hp)⟩

/-- Written after the database's records, the snapshot puts every value back in place. -/
theorem putRecords_snapshot_after_dropZeroSign (hnd : s.keys.Nodup) (hs : s.GaugesFinite) :
    s.dropZeroSigns.putRecords (s.snapshot signer) = s := by
  have h := @putRecords_snapshot_over s signer id id s.dropZeroSigns
    (by simp [dropZeroSigns, keys, Function.comp_def]) hnd
    fun p hp => ⟨id_toRecord p.2 p.1 signer, toValue_toRecord (hs p hp) p.1 signer⟩
  simpa using h

end Store

/-! ## Flush, then restore -/

namespace Service

theorem flush_eq {s : Service} (h : s.persistence.isEmpty = false) :
    s.flush = { s with volume := s.persistence.writeAll s.volume s.snapshot } := by
  simp [flush, h]

/-- A flush keeps the backends. -/
theorem persistence_flush (s : Service) : s.flush.persistence = s.persistence := by
  unfold flush
  split <;> rfl

theorem restore_eq (s : Service) :
    s.restore = ((Store.ofRecords (s.persistence.restore s.volume)).size,
      { s with store := Store.ofRecords (s.persistence.restore s.volume) }) :=
  rfl

/-- What the backends hold after a flush rebuilds the flushed store, its zero signs dropped
when no file is read after the database. -/
theorem ofRecords_restore_flush {s : Service} {db : Option (DatabaseId × Bool)}
    {file : Option String} (hS : Store.Reachable s.store)
    (hp : s.persistence = Persistence.of db file) (hsome : db.isSome ∨ file.isSome)
    (hfresh : ∀ d ∈ db, (s.volume.table d.1).rows = [])
    (hwrite : ∀ b ∈ s.persistence.backends, (s.volume.write b s.snapshot).1 = .ok ())
    (hback : file.isSome → ∀ n x, s.store.get? n = some (.gauge x) → x.ReadsBack) :
    Store.ofRecords (s.persistence.restore s.flush.volume) =
      if file.isSome then s.store else s.store.dropZeroSigns := by
  have hnd := hS.nodup_keys
  have hfin := hS.gaugesFinite
  have hempty : s.persistence.isEmpty = false := by
    rw [hp]
    cases db <;> cases file <;> simp_all [Persistence.of, Persistence.isEmpty]
  rw [flush_eq hempty, hp]
  rw [hp] at hwrite
  have hids : (s.snapshot.map Record.id).Nodup := by
    rw [snapshot, Store.map_id_snapshot]
    exact hnd
  rw [Persistence.restore_writeAll hids hfresh hwrite (Store.snapshot_stored hfin)
    fun hf => Store.snapshot_valuesReadBack (hback hf) hnd]
  rw [Store.ofRecords_eq_putRecords]
  cases db <;> cases file
  · simp at hsome
  · simpa [snapshot] using Store.putRecords_own_snapshot hnd hfin
  · simpa [snapshot] using Store.putRecords_snapshot_dropZeroSign hnd hfin
  · simp only [Option.isSome_some, if_true]
    rw [Store.putRecords_append, snapshot,
      Store.putRecords_snapshot_dropZeroSign hnd hfin,
      Store.putRecords_snapshot_after_dropZeroSign hnd hfin]

end Service

/-- **Restoring what a flush wrote.** Take a store that calls reach, and backends as the server
sets them up, a new database then a snapshot file, at least one of them, whose writes of the
snapshot go through. After a flush, a restore from any store gives back the flushed service
and answers the store's size, with one difference: when no file is configured, every gauge
zero comes back with its sign dropped, as the database keeps it. With a file, each gauge's
JSON text must read back as the gauge. -/
theorem restore_after_flush {s : Service} {db : Option (DatabaseId × Bool)}
    {file : Option String} (hS : Store.Reachable s.store)
    (hp : s.persistence = Persistence.of db file) (hsome : db.isSome ∨ file.isSome)
    (hfresh : ∀ d ∈ db, (s.volume.table d.1).rows = [])
    (hwrite : ∀ b ∈ s.persistence.backends, (s.volume.write b s.snapshot).1 = .ok ())
    (hback : file.isSome → ∀ n x, s.store.get? n = some (.gauge x) → x.ReadsBack)
    (prior : Store) :
    { s.flush with store := prior }.restore =
      (s.store.size,
        { s.flush with store := if file.isSome then s.store else s.store.dropZeroSigns }) := by
  have hstore := Service.ofRecords_restore_flush hS hp hsome hfresh hwrite hback
  rw [Service.restore_eq]
  dsimp only
  rw [Service.persistence_flush] at *
  rw [hstore]
  split <;> simp

/-- A gauge set to `-0`, flushed to a private database and a snapshot file, comes back as it
was. -/
theorem restore_after_flush_negative_zero :
    let s : Service :=
      { store := ((Store.Op.ingestOne "gauge" "n" "-0").run {}).2
        persistence := Persistence.of (some (.memory 0, true)) (some "metrics.json")
        volume := (Volume.openPrivate {}).2 }
    Store.Reachable s.store ∧
      s.persistence = Persistence.of (some (.memory 0, true)) (some "metrics.json") ∧
      ((some (DatabaseId.memory 0, true)).isSome ∨ (some "metrics.json").isSome) ∧
      (∀ d ∈ some (DatabaseId.memory 0, true), (s.volume.table d.1).rows = []) ∧
      (∀ b ∈ s.persistence.backends, (s.volume.write b s.snapshot).1 = .ok ()) ∧
      ((some "metrics.json").isSome → ∀ n x, s.store.get? n = some (.gauge x) → x.ReadsBack) ∧
      { s.flush with store := {} }.restore =
        (s.store.size, { s.flush with
          store := if (some "metrics.json").isSome then s.store else s.store.dropZeroSigns }) := by
  intro s
  have hS : Store.Reachable s.store := .call _ .empty trivial
  have hfresh : ∀ d ∈ some (DatabaseId.memory 0, true), (s.volume.table d.1).rows = [] := by
    intro d hd
    cases hd
    rfl
  have hwrite : ∀ b ∈ s.persistence.backends, (s.volume.write b s.snapshot).1 = .ok () := by
    intro b hb
    simp only [s, Persistence.of, Option.map_some, Option.toList_some, List.singleton_append,
      List.mem_cons, List.not_mem_nil, or_false] at hb
    rcases hb with rfl | rfl <;> decide +kernel
  have hback : (some "metrics.json").isSome →
      ∀ n x, s.store.get? n = some (.gauge x) → x.ReadsBack := by
    intro _ n x hx
    have hstore : s.store = ⟨[("n", .gauge (Binary64.zero true))]⟩ := by decide
    rw [hstore] at hx
    by_cases hn : n = "n"
    · subst hn
      simp only [Store.get?, List.lookup_cons, beq_self_eq_true, Option.some.injEq,
        Value.gauge.injEq] at hx
      subst hx
      unfold Binary64.ReadsBack
      decide +kernel
    · simp only [Store.get?, List.lookup_cons, beq_false_of_ne hn, List.lookup_nil,
        reduceCtorEq] at hx
  exact ⟨hS, rfl, .inl rfl, hfresh, hwrite, hback,
    restore_after_flush hS rfl (.inl rfl) hfresh hwrite hback {}⟩

/-- A gauge set to `-0`, flushed to a private database alone, comes back as `+0`: the restored
store is not the flushed one. -/
theorem restore_after_flush_drops_zero_sign :
    let s : Service :=
      { store := ((Store.Op.ingestOne "gauge" "n" "-0").run {}).2
        persistence := Persistence.of (some (.memory 0, true)) none
        volume := (Volume.openPrivate {}).2 }
    Store.Reachable s.store ∧ s.store.get? "n" = some (.gauge (Binary64.zero true)) ∧
      ({ s.flush with store := {} }.restore).2.store.get? "n" =
        some (.gauge (Binary64.zero false)) := by
  intro s
  have hS : Store.Reachable s.store := .call _ .empty trivial
  have hwrite : ∀ b ∈ s.persistence.backends, (s.volume.write b s.snapshot).1 = .ok () := by
    intro b hb
    simp only [s, Persistence.of, Option.map_some, Option.toList_some, Option.map_none,
      Option.toList_none, List.append_nil, List.mem_singleton] at hb
    subst hb
    decide +kernel
  have hrestored := @Service.ofRecords_restore_flush _ _ none hS rfl (.inl rfl)
    (fun d hd => by cases hd; rfl) hwrite (fun h => absurd h (by decide))
  have hstore : s.store = ⟨[("n", .gauge (Binary64.zero true))]⟩ := by decide
  refine ⟨hS, by rw [hstore]; decide, ?_⟩
  rw [Service.restore_eq]
  dsimp only
  rw [Service.persistence_flush, hrestored,
    hstore]
  decide

end Telemetry

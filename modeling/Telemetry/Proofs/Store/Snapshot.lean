import Mathlib
import Telemetry.Proofs.Store.Reachable

/-
  A store rebuilt from its snapshot.

  A restore writes the readable records of a snapshot over the empty store, in order
  (`putRecords`). The snapshot of a store has one record per stored name, in the store's
  order, and each record reads back as the stored value when the value is finite
  (`toValue_toRecord`). Names are distinct in every store calls reach
  (`Reachable.nodup_keys`). So the snapshot, each record read as some value, rebuilds the
  store of those values (`putRecords_snapshot`); written over a store with the same names,
  it replaces each value in place (`putRecords_snapshot_over`). Both go through `putAll`:
  over the empty store it lays the entries down in order (`putAll_of_fresh`), and over a
  store with the same names it is the entries themselves (`putAll_of_keys`).
-/

namespace Telemetry

namespace Store

/-! ## Names stay distinct -/

/-- Writes the readable records over a store, a later record of a name winning. -/
def putRecords (s : Store) (rs : List Record) : Store :=
  rs.foldl (fun acc r => match r.toValue with
    | .ok v => acc.put r.id v
    | .error _ => acc) s

theorem ofRecords_eq_putRecords (rs : List Record) : ofRecords rs = ({} : Store).putRecords rs :=
  rfl

theorem putRecords_append (s : Store) (rs rs' : List Record) :
    s.putRecords (rs ++ rs') = (s.putRecords rs).putRecords rs' := by
  simp [putRecords, List.foldl_append]

theorem nodup_keys_putAll {s : Store} (l : List (String × Value)) (h : s.keys.Nodup) :
    (s.putAll l).keys.Nodup := by
  induction l generalizing s with
  | nil => exact h
  | cons p l ih => exact ih (nodup_keys_put p.1 p.2 h)

theorem nodup_keys_putRecords {s : Store} (rs : List Record) (h : s.keys.Nodup) :
    (s.putRecords rs).keys.Nodup := by
  induction rs generalizing s with
  | nil => exact h
  | cons r rs ih =>
    apply ih
    dsimp only
    split
    · exact nodup_keys_put _ _ h
    · exact h

theorem nodup_keys_ingestValue {s q : Store} {n : String} {v w : Value}
    (h : s.ingestValue n v = .ok (w, q)) (hs : s.keys.Nodup) : q.keys.Nodup := by
  obtain ⟨-, rfl⟩ := ingestValue_eq_ok.1 h
  exact nodup_keys_put n w hs

/-- Every call keeps the stored names distinct. -/
theorem nodup_keys_run {s : Store} (op : Op) (h : s.keys.Nodup) : (op.run s).2.keys.Nodup := by
  cases op with
  | ingestOne tag name text =>
    rw [Op.run_ingestOne]
    cases hq : s.ingestOne tag name text with
    | error e => exact h
    | ok p =>
      obtain ⟨v, -, hstep⟩ := ingestOne_eq_ok.1 hq
      exact nodup_keys_ingestValue hstep h
  | ingestValue name v =>
    rw [Op.run_ingestValue]
    cases hq : s.ingestValue name v with
    | error e => exact h
    | ok p => exact nodup_keys_ingestValue hq h
  | ingestRecord r i =>
    rw [Op.run_ingestRecord]
    cases hq : s.ingestRecord r i with
    | error e => exact h
    | ok p =>
      obtain ⟨v, -, -, hstep⟩ := ingestRecord_eq_ok.1 hq
      exact nodup_keys_ingestValue hstep h
  | ingestBatch rs i =>
    rw [Op.run_ingestBatch]
    cases hq : s.ingestBatch rs i with
    | error e => exact h
    | ok p =>
      -- a batch writes its staged entries over the store
      rw [ingestBatch_eq] at hq
      obtain ⟨vs, -, t, -, hp⟩ := by simpa only [Except.bind_eq_ok] using hq
      rw [← (Except.pure_eq_ok.1 hp)]
      exact nodup_keys_putAll _ h
  | get tag name => exact h
  | listing => exact h
  | snapshot signer => exact h
  | restore rs => exact nodup_keys_putRecords rs (by simp [keys])

theorem Reachable.nodup_keys {s : Store} (h : Reachable s) : s.keys.Nodup := by
  induction h with
  | empty => simp [keys]
  | call op _ _ ih => exact nodup_keys_run op ih

/-! ## Writing entries -/

/-- Entries with new names are laid down after the stored ones, in order. -/
theorem putAll_of_fresh {pre l : List (String × Value)}
    (h : ((pre ++ l).map Prod.fst).Nodup) : (⟨pre⟩ : Store).putAll l = ⟨pre ++ l⟩ := by
  induction l generalizing pre with
  | nil => simp
  | cons p l ih =>
    have hnew : (⟨pre⟩ : Store).get? p.1 = none := by
      rw [List.map_append, List.nodup_append] at h
      rw [get?, List.lookup_eq_none_iff]
      intro x hx
      have hne : x.1 ≠ p.1 := fun he => h.2.2 _ (List.mem_map_of_mem hx) _ (by simp) he
      exact bne_iff_ne.2 (Ne.symm hne)
    rw [putAll_cons, put_of_none p.2 hnew, ih (by simpa using h)]
    simp

/-- Stores with distinct names agree when they list the same names and answer alike. -/
theorem eq_of_keys {s t : Store} (hk : s.keys = t.keys) (hnd : s.keys.Nodup)
    (hget : ∀ n, s.get? n = t.get? n) : s = t := by
  obtain ⟨l⟩ := s
  obtain ⟨l'⟩ := t
  simp only [keys, get?] at hk hnd hget
  congr 1
  induction l generalizing l' with
  | nil => cases l' <;> simp_all
  | cons p l ih =>
    cases l' with
    | nil => simp at hk
    | cons p' l' =>
      obtain ⟨n, v⟩ := p
      obtain ⟨n', v'⟩ := p'
      simp only [List.map_cons, List.cons.injEq] at hk
      obtain ⟨rfl, hk⟩ := hk
      simp only [List.map_cons, List.nodup_cons] at hnd
      have hv : v = v' := by simpa [lookup_cons_ite] using hget n
      -- the first name is not among the others, so every other lookup is the tail's
      have hnone : ∀ {m : List (String × Value)}, n ∉ m.map Prod.fst → m.lookup n = none :=
        fun hm => List.lookup_eq_none_iff.2 fun x hx =>
          bne_iff_ne.2 fun he => hm (he ▸ List.mem_map_of_mem hx)
      have htail : ∀ m, l.lookup m = l'.lookup m := by
        intro m
        by_cases hm : m = n
        · subst hm
          rw [hnone hnd.1, hnone (hk ▸ hnd.1)]
        · simpa [lookup_cons_ite, hm] using hget m
      rw [hv, ih hnd.2 l' hk htail]

/-- With distinct names, a stored entry is what its name looks up. -/
theorem get?_of_mem {s : Store} (hnd : s.keys.Nodup) {n : String} {v : Value}
    (h : (n, v) ∈ s.entries) : s.get? n = some v := by
  obtain ⟨l⟩ := s
  simp only [keys, get?] at hnd h ⊢
  induction l with
  | nil => cases h
  | cons q l ih =>
    simp only [List.map_cons, List.nodup_cons] at hnd
    obtain ⟨k, w⟩ := q
    rcases List.mem_cons.1 h with hq | hl
    · simp only [Prod.mk.injEq] at hq
      obtain ⟨rfl, rfl⟩ := hq
      simp
    · have hk : n ≠ k := by
        rintro rfl
        exact hnd.1 (List.mem_map.2 ⟨_, hl, rfl⟩)
      rw [lookup_cons_ite, if_neg hk]
      exact ih hnd.2 hl

theorem keys_putAll_of_mem {s : Store} {l : List (String × Value)}
    (h : ∀ n ∈ l.map Prod.fst, n ∈ s.keys) : (s.putAll l).keys = s.keys := by
  induction l generalizing s with
  | nil => rfl
  | cons p l ih =>
    have hp : (s.get? p.1).isSome := mem_keys_iff.1 (h p.1 (by simp))
    have hkeys : (s.put p.1 p.2).keys = s.keys := by rw [keys_put, if_pos hp]
    rw [putAll_cons, ih (fun n hn => hkeys ▸ h n (by simp [hn])), hkeys]

/-- Entries written over a store with the same names are the store's entries. -/
theorem putAll_of_keys {s : Store} {l : List (String × Value)} (hk : s.keys = l.map Prod.fst)
    (hnd : (l.map Prod.fst).Nodup) : s.putAll l = ⟨l⟩ := by
  have hkeys : (s.putAll l).keys = s.keys := keys_putAll_of_mem (fun n hn => hk ▸ hn)
  apply eq_of_keys (by rw [hkeys, hk]; rfl) (by rw [hkeys, hk]; exact hnd)
  intro n
  rw [get?_putAll s hnd]
  cases hl : l.lookup n with
  | some v => simp [get?, hl]
  | none =>
    have hn : n ∉ s.keys := by
      rw [hk]
      intro hn
      obtain ⟨p, hp, rfl⟩ := List.mem_map.1 hn
      simp [List.lookup_eq_none_iff] at hl
      exact hl p.1 p.2 hp rfl
    have hs : s.get? n = none := Option.not_isSome_iff_eq_none.1 (mt mem_keys_iff.2 hn)
    rw [Option.none_or, hs]
    exact hl.symm

/-! ## Records of a snapshot -/

/-- Records each reading as the value of an entry write those entries. -/
theorem putRecords_eq_putAll {s : Store} {rs : List Record} {l : List (String × Value)}
    (h : List.Forall₂ (fun r p => r.id = p.1 ∧ r.toValue = .ok p.2) rs l) :
    s.putRecords rs = s.putAll l := by
  induction h generalizing s with
  | nil => rfl
  | @cons r p rs l hrp _ ih =>
    obtain ⟨hid, hv⟩ := hrp
    rw [putAll_cons, ← ih, putRecords, List.foldl_cons, hv, hid]
    rfl

theorem id_toRecord (v : Value) (n : String) (signer : Signer) : (v.toRecord n signer).id = n := by
  cases v <;> rfl

/-- The record of a finite value reads back as the value, whatever its hash. -/
theorem toValue_toRecordWith {v : Value} (hv : v.Finite) (n hash : String) :
    (v.toRecordWith n hash).toValue = .ok v := by
  cases v with
  | gauge x =>
    simp only [Value.Finite] at hv
    simp [Value.toRecordWith, Record.toValue, hv, Kind.parse, bind, Except.bind, pure,
      Except.pure]
  | counter d => simp [Value.toRecordWith, Record.toValue, Kind.parse, bind, Except.bind, pure,
      Except.pure]

theorem toValue_toRecord {v : Value} (hv : v.Finite) (n : String) (signer : Signer) :
    (v.toRecord n signer).toValue = .ok v :=
  toValue_toRecordWith hv n _

section Snapshot

variable {s : Store} {signer : Signer} {g : Record → Record} {f : Value → Value}

theorem keys_map_values (s : Store) (f : Value → Value) :
    (s.entries.map fun p => (p.1, f p.2)).map Prod.fst = s.keys := by
  simp [keys, Function.comp_def]

/-- The snapshot's records, each changed by `g` and read back as `f` of the stored value. -/
theorem forall₂_snapshot
    (hg : ∀ p ∈ s.entries, (g (p.2.toRecord p.1 signer)).id = p.1 ∧
      (g (p.2.toRecord p.1 signer)).toValue = .ok (f p.2)) :
    List.Forall₂ (fun r p => r.id = p.1 ∧ r.toValue = .ok p.2) ((s.snapshot signer).map g)
      (s.entries.map fun p => (p.1, f p.2)) := by
  simp only [snapshot, List.map_map, List.forall₂_map_left_iff, List.forall₂_map_right_iff]
  exact List.forall₂_same.2 hg

/-- A snapshot whose records read back as `f` of the stored values rebuilds the store of
those values. -/
theorem putRecords_snapshot (hnd : s.keys.Nodup)
    (hg : ∀ p ∈ s.entries, (g (p.2.toRecord p.1 signer)).id = p.1 ∧
      (g (p.2.toRecord p.1 signer)).toValue = .ok (f p.2)) :
    ({} : Store).putRecords ((s.snapshot signer).map g) = ⟨s.entries.map fun p => (p.1, f p.2)⟩ := by
  rw [putRecords_eq_putAll (forall₂_snapshot hg)]
  exact putAll_of_fresh (by rw [List.nil_append, keys_map_values]; exact hnd)

/-- Written over a store with the same names, such a snapshot replaces each value in
place. -/
theorem putRecords_snapshot_over {t : Store} (hk : t.keys = s.keys) (hnd : s.keys.Nodup)
    (hg : ∀ p ∈ s.entries, (g (p.2.toRecord p.1 signer)).id = p.1 ∧
      (g (p.2.toRecord p.1 signer)).toValue = .ok (f p.2)) :
    t.putRecords ((s.snapshot signer).map g) = ⟨s.entries.map fun p => (p.1, f p.2)⟩ := by
  rw [putRecords_eq_putAll (forall₂_snapshot hg)]
  exact putAll_of_keys (by rw [keys_map_values, hk]) (by rw [keys_map_values]; exact hnd)

end Snapshot

end Store

end Telemetry

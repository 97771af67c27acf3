import Telemetry.Store.Basic
import Telemetry.Proofs.Except

/-
  The metric store through its view `get?`.

  `get?_put`: a write changes the value of its own name and of no other. Merging keeps the
  kind (`kind_of_merge_eq_some`) and fails exactly on a kind mismatch (`merge_eq_none_iff`),
  so `mergeInto` fails exactly with the `typeConflict` of the stored and the incoming kind
  (`mergeInto_eq_error_iff`). Each ingestion then has one lemma saying when it succeeds and
  with which store, and one saying with which error it fails; `get_eq_ok_iff` says what a
  query answers.

  Below the view sit two facts about the list itself, for the batch: writing a name twice
  keeps the second value (`put_put_self`), and writes to two names commute once the second
  is stored (`put_comm_of_isSome`). Both hold of the entries, not only of the view.

  Last, `Op` lists the calls a client makes on the shared store and `Op.run` runs one: the
  store changes only when the call succeeds, as behind the store's lock.
-/

namespace Telemetry

/-! ## Values -/

namespace Value

/-- A value the store may hold: a gauge is finite. -/
def Finite : Value → Prop
  | gauge x => x.isFinite = true
  | counter _ => True

theorem kind_of_merge_eq_some {c v w : Value} (h : c.merge v = some w) :
    w.kind = v.kind ∧ c.kind = v.kind := by
  cases c <;> cases v <;> simp [merge] at h <;> subst h <;> simp [kind]

theorem merge_eq_none_iff {c v : Value} : c.merge v = none ↔ c.kind ≠ v.kind := by
  cases c <;> cases v <;> simp [merge, kind]

/-- A merge is finite when the incoming value is: a gauge is replaced, a counter added. -/
theorem finite_of_merge_eq_some {c v w : Value} (hv : v.Finite) (h : c.merge v = some w) :
    w.Finite := by
  cases c <;> cases v <;> simp [merge] at h <;> subst h <;> simp_all [Finite]

theorem parseAs_finite {k : Kind} {text : String} {v : Value} (h : parseAs k text = .ok v) :
    v.Finite := by
  unfold parseAs at h
  cases k with
  | gauge =>
    simp only at h
    split at h
    · split at h
      · cases h; assumption
      · cases h
    · cases h
  | counter =>
    simp only at h
    split at h
    · cases h; trivial
    · cases h

theorem parse_finite {tag text : String} {v : Value} (h : parse tag text = .ok v) : v.Finite := by
  obtain ⟨k, -, hv⟩ := Except.bind_eq_ok.1 h
  exact parseAs_finite hv

end Value

namespace Record

theorem toValue_finite {r : Record} {v : Value} (h : r.toValue = .ok v) : v.Finite := by
  obtain ⟨k, -, hv⟩ := Except.bind_eq_ok.1 h
  cases k with
  | gauge =>
    simp only at hv
    split at hv
    · split at hv
      · cases hv; assumption
      · cases hv
    · cases hv
  | counter =>
    simp only at hv
    split at hv
    · cases hv; trivial
    · cases hv

end Record

namespace Store

/-- Stores are equal when their entries are, in order; this lets a run on given calls be
checked by evaluation. -/
instance : DecidableEq Store := fun a b =>
  decidable_of_iff (a.entries = b.entries) ⟨fun h => by cases a; cases b; cases h; rfl,
    fun h => h ▸ rfl⟩

/-! ## Writes -/

theorem put_of_isSome {s : Store} {n : String} (v : Value) (h : (s.get? n).isSome) :
    s.put n v = ⟨s.entries.map fun p => if p.1 == n then (p.1, v) else p⟩ := by
  simp only [put, get?] at *
  simp only [h, if_true]

theorem put_of_none {s : Store} {n : String} (v : Value) (h : s.get? n = none) :
    s.put n v = ⟨s.entries ++ [(n, v)]⟩ := by
  simp only [put, get?] at *
  simp [h]

theorem lookup_cons_ite (k m : String) (w : Value) (l : List (String × Value)) :
    ((k, w) :: l).lookup m = if m = k then some w else l.lookup m := by
  by_cases h : m = k
  · subst h; simp
  · simp [List.lookup_cons, beq_false_of_ne h, h]

/-- Replacing the values of one name in place: the lookups of every other name stay. -/
theorem lookup_map_replace (l : List (String × Value)) (n m : String) (v : Value) :
    (l.map fun p => if p.1 == n then (p.1, v) else p).lookup m =
      if m = n then (if (l.lookup n).isSome then some v else none) else l.lookup m := by
  induction l with
  | nil => simp
  | cons p l ih =>
    obtain ⟨k, w⟩ := p
    simp only [beq_iff_eq] at ih ⊢
    by_cases hk : k = n
    · subst hk
      by_cases hm : m = k <;> simp [lookup_cons_ite, hm, ih]
    · by_cases hm : m = n
      · subst hm
        rw [List.map_cons, lookup_cons_ite k m w l, if_neg (Ne.symm hk)]
        simp [lookup_cons_ite, hk, Ne.symm hk, ih]
      · simp [lookup_cons_ite, hk, hm, ih]

/-- A write sets the value of its name and leaves every other name alone. -/
theorem get?_put (s : Store) (n m : String) (v : Value) :
    (s.put n v).get? m = if m = n then some v else s.get? m := by
  by_cases h : (s.get? n).isSome
  · rw [put_of_isSome v h]
    simp only [get?] at h ⊢
    rw [lookup_map_replace, h]
    simp
  · have h' : s.get? n = none := by simpa using h
    rw [put_of_none v h']
    simp only [get?] at h' ⊢
    rw [List.lookup_append]
    by_cases hm : m = n
    · subst hm; simp [h']
    · simp [lookup_cons_ite, hm]

@[simp] theorem get?_put_self (s : Store) (n : String) (v : Value) : (s.put n v).get? n = some v := by
  simp [get?_put]

@[simp] theorem get?_put_of_ne {s : Store} {n m : String} (v : Value) (h : m ≠ n) :
    (s.put n v).get? m = s.get? m := by
  simp [get?_put, h]

theorem map_replace_of_none {l : List (String × Value)} {n : String} (v : Value)
    (h : l.lookup n = none) : (l.map fun p => if p.1 == n then (p.1, v) else p) = l := by
  rw [List.lookup_eq_none_iff] at h
  conv => rhs; rw [← List.map_id l]
  apply List.map_congr_left
  intro p hp
  have hne : n ≠ p.1 := by simpa using h p hp
  simp [beq_false_of_ne (Ne.symm hne)]

/-- Writing a name twice keeps only the second value. -/
theorem put_put_self (s : Store) (n : String) (a b : Value) : (s.put n a).put n b = s.put n b := by
  have hs : ((s.put n a).get? n).isSome := by simp
  rw [put_of_isSome b hs]
  by_cases h : (s.get? n).isSome
  · rw [put_of_isSome a h, put_of_isSome b h, List.map_map]
    congr 1
    apply List.map_congr_left
    rintro ⟨k, w⟩ _
    by_cases hk : k = n <;> simp [hk]
  · have h' : s.get? n = none := by simpa using h
    rw [put_of_none a h', put_of_none b h', List.map_append, map_replace_of_none b h']
    simp

/-- Writes to two names commute once the second name is stored: neither write adds an
entry, so neither moves the other. -/
theorem put_comm_of_isSome {s : Store} {n k : String} (a b : Value) (hn : (s.get? n).isSome)
    (hk : k ≠ n) : (s.put k a).put n b = (s.put n b).put k a := by
  have hn' : ((s.put k a).get? n).isSome := by rwa [get?_put_of_ne a (Ne.symm hk)]
  by_cases h : (s.get? k).isSome
  · have hk' : ((s.put n b).get? k).isSome := by rwa [get?_put_of_ne b hk]
    rw [put_of_isSome a hk', put_of_isSome b hn', put_of_isSome a h, put_of_isSome b hn]
    simp only [List.map_map, Store.mk.injEq]
    apply List.map_congr_left
    rintro ⟨j, w⟩ _
    by_cases hj : j = n
    · subst hj; simp [Ne.symm hk]
    · by_cases hjk : j = k
      · subst hjk; simp [hj]
      · simp [hj, hjk]
  · have h' : s.get? k = none := by simpa using h
    have hk' : (s.put n b).get? k = none := by rwa [get?_put_of_ne b hk]
    rw [put_of_none a hk', put_of_isSome b hn', put_of_none a h', put_of_isSome b hn]
    simp [hk]

/-! ## Merging into the store -/

theorem mergeInto_congr {s t : Store} {n : String} (v : Value) (h : s.get? n = t.get? n) :
    s.mergeInto n v = t.mergeInto n v := by
  simp only [mergeInto, h]

theorem mergeInto_eq_ok_iff {s : Store} {n : String} {v w : Value} :
    s.mergeInto n v = .ok w ↔
      (s.get? n = none ∧ w = v) ∨ ∃ c, s.get? n = some c ∧ c.merge v = some w := by
  unfold mergeInto
  cases s.get? n with
  | none => simp [eq_comm]
  | some c =>
    cases hm : c.merge v <;> simp [hm]

/-- A merge fails exactly on a kind mismatch, naming the stored and the incoming kind. -/
theorem mergeInto_eq_error_iff {s : Store} {n : String} {v : Value} {e : MetricError} :
    s.mergeInto n v = .error e ↔
      ∃ c, s.get? n = some c ∧ c.kind ≠ v.kind ∧ e = .typeConflict n c.kind v.kind := by
  unfold mergeInto
  cases s.get? n with
  | none => simp
  | some c =>
    cases hm : c.merge v with
    | none =>
      have hk := Value.merge_eq_none_iff.1 hm
      simp [hm, Ne.symm hk, eq_comm]
    | some w =>
      have hk := (Value.kind_of_merge_eq_some hm).2
      simp [hm, hk]

theorem kind_of_mergeInto {s : Store} {n : String} {v w : Value} (h : s.mergeInto n v = .ok w) :
    w.kind = v.kind := by
  rcases mergeInto_eq_ok_iff.1 h with ⟨-, rfl⟩ | ⟨c, -, hc⟩
  · rfl
  · exact (Value.kind_of_merge_eq_some hc).1

/-- A gauge reading merges as itself under a name that holds no counter. -/
theorem mergeInto_gauge {s : Store} {n : String} (h : ∀ c, s.get? n = some c → c.kind = .gauge)
    (x : Binary64) : s.mergeInto n (.gauge x) = .ok (.gauge x) := by
  unfold mergeInto
  cases hget : s.get? n with
  | none => rfl
  | some c =>
    cases c with
    | gauge y => rfl
    | counter d => exact absurd (h _ hget) (by simp [Value.kind])

/-- A merge keeps the kind already stored. -/
theorem stored_kind_of_mergeInto {s : Store} {n : String} {v w c : Value}
    (h : s.mergeInto n v = .ok w) (hc : s.get? n = some c) : w.kind = c.kind := by
  rcases mergeInto_eq_ok_iff.1 h with ⟨hn, -⟩ | ⟨c', hc', hm⟩
  · simp [hn] at hc
  · rw [hc] at hc'
    cases hc'
    obtain ⟨h1, h2⟩ := Value.kind_of_merge_eq_some hm
    rw [h1, h2]

/-! ## Ingestion, one function at a time -/

theorem ingestValue_eq_ok {s q : Store} {n : String} {v w : Value} :
    s.ingestValue n v = .ok (w, q) ↔ s.mergeInto n v = .ok w ∧ q = s.put n w := by
  simp only [ingestValue, Except.bind_eq_ok, Except.pure_eq_ok, Prod.mk.injEq]
  constructor
  · rintro ⟨w', h, rfl, rfl⟩
    exact ⟨h, rfl⟩
  · rintro ⟨h, rfl⟩
    exact ⟨w, h, rfl, rfl⟩

theorem ingestValue_eq_error {s : Store} {n : String} {v : Value} {e : MetricError} :
    s.ingestValue n v = .error e ↔ s.mergeInto n v = .error e := by
  simp [ingestValue]

theorem ingestOne_eq_ok {s : Store} {tag name text : String} {p : Value × Store} :
    s.ingestOne tag name text = .ok p ↔ ∃ v, Value.parse tag text = .ok v ∧ s.ingestValue name v = .ok p := by
  simp [ingestOne]

theorem ingestOne_eq_error {s : Store} {tag name text : String} {e : MetricError} :
    s.ingestOne tag name text = .error e ↔
      Value.parse tag text = .error e ∨ ∃ v, Value.parse tag text = .ok v ∧ s.ingestValue name v = .error e := by
  simp [ingestOne]

theorem ingestRecord_eq_ok {s : Store} {r : Record} {i : Integrity} {p : Value × Store} :
    s.ingestRecord r i = .ok p ↔
      ∃ v, r.toValue = .ok v ∧ i.check r = .ok () ∧ s.ingestValue r.id v = .ok p := by
  simp [ingestRecord]

/-- A record fails on its value first, then on its hash, and only then on its merge. -/
theorem ingestRecord_eq_error {s : Store} {r : Record} {i : Integrity} {e : MetricError} :
    s.ingestRecord r i = .error e ↔
      r.toValue = .error e ∨ ∃ v, r.toValue = .ok v ∧
        (i.check r = .error e ∨ i.check r = .ok () ∧ s.ingestValue r.id v = .error e) := by
  simp [ingestRecord]

/-- A query succeeds exactly when its tag names the kind stored under the name, and then
answers the stored value. -/
theorem get_eq_ok_iff {s : Store} {tag name : String} {v : Value} :
    s.get tag name = .ok v ↔ ∃ k, Kind.parse tag = .ok k ∧ s.get? name = some v ∧ v.kind = k := by
  unfold get
  cases hk : Kind.parse tag with
  | error _ => simp
  | ok k =>
    cases hs : s.get? name with
    | none => simp
    | some w =>
      simp only [Except.ok.injEq, Option.some.injEq, exists_eq_left']
      by_cases hw : w.kind = k
      · simp only [hw, beq_self_eq_true, if_true, Except.ok.injEq]
        constructor
        · rintro rfl
          exact ⟨rfl, hw⟩
        · rintro ⟨rfl, -⟩
          rfl
      · simp only [beq_iff_eq, hw, if_false, reduceCtorEq, false_iff, not_and]
        rintro rfl
        exact hw

/-! ## Calls on the shared store -/

/-- A call a client makes on the store, with what it needs besides the store. `snapshot`
stands for both ways of taking the signed records: alone, or handed to a writer while the
lock is held; both read the same records. -/
inductive Op where
  | ingestOne (tag name text : String)
  | ingestValue (name : String) (v : Value)
  | ingestRecord (r : Record) (integrity : Integrity)
  | ingestBatch (rs : List Record) (integrity : Integrity)
  | get (tag name : String)
  | listing
  | snapshot (signer : Signer)
  | restore (rs : List Record)

/-- What a call answers. -/
inductive Answer where
  | value (v : Value)
  | count (n : Nat)
  | lines (ls : List String)
  | records (rs : List Record)

/-- The answer of a computation of the new store, and the store left behind: the old one
when the computation fails. -/
def settle (s : Store) : Except MetricError (Answer × Store) → Except MetricError Answer × Store
  | .ok (a, q) => (.ok a, q)
  | .error e => (.error e, s)

namespace Op

/-- Runs a call: its answer and the store after it. -/
def run (s : Store) : Op → Except MetricError Answer × Store
  | ingestOne tag name text => s.settle ((s.ingestOne tag name text).map fun p => (.value p.1, p.2))
  | ingestValue name v => s.settle ((s.ingestValue name v).map fun p => (.value p.1, p.2))
  | ingestRecord r i => s.settle ((s.ingestRecord r i).map fun p => (.value p.1, p.2))
  | ingestBatch rs i => s.settle ((s.ingestBatch rs i).map fun p => (.count p.1, p.2))
  | get tag name => ((s.get tag name).map .value, s)
  | listing => (.ok (.lines s.listing), s)
  | snapshot signer => (.ok (.records (s.snapshot signer)), s)
  | restore rs => (.ok (.count (ofRecords rs).size), ofRecords rs)

theorem settle_snd_of_error {s : Store} {x : Except MetricError (Answer × Store)} {e : MetricError}
    (h : (s.settle x).1 = .error e) : (s.settle x).2 = s := by
  cases x with
  | ok p => cases h
  | error e' => rfl

/-- A failed call leaves the store as it was. -/
theorem run_store_of_error {s : Store} {op : Op} {e : MetricError} (h : (op.run s).1 = .error e) :
    (op.run s).2 = s := by
  cases op <;> simp only [run] at h ⊢
  all_goals first
    | rfl
    | exact settle_snd_of_error h
    | cases h

end Op

end Store

end Telemetry

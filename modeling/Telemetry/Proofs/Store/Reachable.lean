import Telemetry.Proofs.Store.Batch

/-
  What holds of every store a run of calls can reach from the empty store.

  Three facts, each from its own lemmas. Every stored gauge is finite (`GaugesFinite`): each
  path that brings a value in checks it (`Value.parse_finite`, `Record.toValue_finite`), a
  merge keeps the incoming finite value, and a restore reads values through the same record
  check. No call but a restore drops a name or rebinds its kind (`run_keeps_kind`): a write
  that succeeds merges into the stored value and a merge keeps the stored kind. A call
  bringing a value of the other kind under a stored name fails and leaves the store alone
  (`run_of_clashes`); once its value and hash checks pass, the failure is a
  `typeConflict`. `get_eq_ok_iff` gives the query's answer on any store.

  `Reachable` lets a client make any call, with the one restriction of the server's own
  callers: a value handed to `ingestValue` is finite, as every value `Value.parse` gives is.
-/

namespace Telemetry

namespace Store

/-! ## Values merged one by one -/

/-- A merge keeps every stored name, with its kind. -/
theorem get?_of_ingestValue {s q : Store} {n' n : String} {v w c : Value}
    (h : s.ingestValue n' v = .ok (w, q)) (hc : s.get? n = some c) :
    ∃ c', q.get? n = some c' ∧ c'.kind = c.kind := by
  obtain ⟨hm, rfl⟩ := ingestValue_eq_ok.1 h
  by_cases hn : n = n'
  · subst hn
    exact ⟨w, get?_put_self s n w, stored_kind_of_mergeInto hm hc⟩
  · exact ⟨c, by rw [get?_put_of_ne w hn, hc], rfl⟩

theorem get?_of_ingestValues {s q : Store} {vs : List (String × Value)} {n : String} {c : Value}
    (h : s.ingestValues vs = .ok q) (hc : s.get? n = some c) :
    ∃ c', q.get? n = some c' ∧ c'.kind = c.kind := by
  induction vs generalizing s c with
  | nil =>
    cases h
    exact ⟨c, hc, rfl⟩
  | cons p vs ih =>
    obtain ⟨n', v⟩ := p
    rw [ingestValues_cons] at h
    obtain ⟨⟨w, q'⟩, hstep, hrest⟩ := Except.bind_eq_ok.1 h
    obtain ⟨c₁, hc₁, hk₁⟩ := get?_of_ingestValue hstep hc
    obtain ⟨c', hc', hk⟩ := ih hrest hc₁
    exact ⟨c', hc', hk.trans hk₁⟩

/-- A value merged into a stored name has the stored kind. -/
theorem kind_of_mem_ingestValues {s q : Store} {vs : List (String × Value)} {n : String}
    {v c : Value} (h : s.ingestValues vs = .ok q) (hv : (n, v) ∈ vs) (hc : s.get? n = some c) :
    c.kind = v.kind := by
  induction vs generalizing s c with
  | nil => cases hv
  | cons p vs ih =>
    obtain ⟨n', v'⟩ := p
    rw [ingestValues_cons] at h
    obtain ⟨⟨w, q'⟩, hstep, hrest⟩ := Except.bind_eq_ok.1 h
    obtain ⟨hm, rfl⟩ := ingestValue_eq_ok.1 hstep
    rcases List.mem_cons.1 hv with hhd | htl
    · simp only [Prod.mk.injEq] at hhd
      obtain ⟨rfl, rfl⟩ := hhd
      rw [← stored_kind_of_mergeInto hm hc, kind_of_mergeInto hm]
    · by_cases hn : n = n'
      · subst hn
        rw [← stored_kind_of_mergeInto hm hc]
        exact ih hrest htl (get?_put_self s n w)
      · exact ih hrest htl (by rw [get?_put_of_ne w hn, hc])

/-! ## Finite gauges -/

/-- Every stored gauge is finite. -/
def GaugesFinite (s : Store) : Prop := ∀ p ∈ s.entries, p.2.Finite

theorem mem_put {s : Store} {n : String} {v : Value} {p : String × Value}
    (h : p ∈ (s.put n v).entries) : p ∈ s.entries ∨ p = (n, v) := by
  by_cases hs : (s.get? n).isSome
  · rw [put_of_isSome v hs] at h
    obtain ⟨⟨k, w⟩, hp, rfl⟩ := List.mem_map.1 h
    by_cases hk : k = n
    · subst hk
      simp
    · simp [hk, hp]
  · rw [put_of_none v (by simpa using hs)] at h
    simpa using h

theorem gaugesFinite_put {s : Store} {n : String} {v : Value} (hs : s.GaugesFinite)
    (hv : v.Finite) : (s.put n v).GaugesFinite := by
  intro p hp
  rcases mem_put hp with hp | rfl
  · exact hs p hp
  · exact hv

theorem finite_of_mergeInto {s : Store} {n : String} {v w : Value} (hv : v.Finite)
    (h : s.mergeInto n v = .ok w) : w.Finite := by
  rcases mergeInto_eq_ok_iff.1 h with ⟨-, rfl⟩ | ⟨c, -, hc⟩
  · exact hv
  · exact Value.finite_of_merge_eq_some hv hc

theorem gaugesFinite_ingestValue {s q : Store} {n : String} {v w : Value} (hs : s.GaugesFinite)
    (hv : v.Finite) (h : s.ingestValue n v = .ok (w, q)) : q.GaugesFinite := by
  obtain ⟨hm, rfl⟩ := ingestValue_eq_ok.1 h
  exact gaugesFinite_put hs (finite_of_mergeInto hv hm)

theorem gaugesFinite_ingestValues {s q : Store} {vs : List (String × Value)}
    (hs : s.GaugesFinite) (hvs : ∀ p ∈ vs, p.2.Finite) (h : s.ingestValues vs = .ok q) :
    q.GaugesFinite := by
  induction vs generalizing s with
  | nil =>
    cases h
    exact hs
  | cons p vs ih =>
    obtain ⟨n, v⟩ := p
    rw [ingestValues_cons] at h
    obtain ⟨⟨w, q'⟩, hstep, hrest⟩ := Except.bind_eq_ok.1 h
    exact ih (gaugesFinite_ingestValue hs (hvs (n, v) (by simp)) hstep)
      (fun p hp => hvs p (by simp [hp])) hrest

theorem finite_of_accepted {rs : List Record} {i : Integrity} {vs : List (String × Value)}
    (h : Accepted rs i vs) : ∀ p ∈ vs, p.2.Finite := by
  induction h with
  | nil => simp
  | cons hp _ ih =>
    intro p hmem
    rcases List.mem_cons.1 hmem with rfl | hmem
    · exact Record.toValue_finite hp.2.1
    · exact ih p hmem

theorem gaugesFinite_empty : ({} : Store).GaugesFinite := by
  intro p hp
  cases hp

theorem gaugesFinite_ofRecords (rs : List Record) : (ofRecords rs).GaugesFinite := by
  unfold ofRecords
  have hempty := gaugesFinite_empty
  revert hempty
  generalize ({} : Store) = acc
  -- each record read adds a checked value, or nothing
  induction rs generalizing acc with
  | nil => exact id
  | cons r rs ih =>
    intro hacc
    apply ih
    dsimp only
    split
    · rename_i v hv
      exact gaugesFinite_put hacc (Record.toValue_finite hv)
    · exact hacc

/-! ## Calls -/

/-- A checked value under a name, or nothing when the check failed. -/
def named (n : String) : Except MetricError Value → List (String × Value)
  | .ok v => [(n, v)]
  | .error _ => []

theorem pair_mem_named {n m : String} {x : Except MetricError Value} {v : Value} :
    (m, v) ∈ named n x ↔ m = n ∧ x = .ok v := by
  cases x <;> simp [named, eq_comm]

namespace Op

/-- The values a call brings in, under their names: those that pass the value check. -/
def incoming : Op → List (String × Value)
  | ingestOne tag name text => named name (Value.parse tag text)
  | ingestValue name v => [(name, v)]
  | ingestRecord r _ => named r.id r.toValue
  | ingestBatch rs _ => rs.flatMap fun r => named r.id r.toValue
  | _ => []

/-- The checks a call makes before it merges: the value text, or each record's value and
hash. -/
def checks : Op → Except MetricError Unit
  | ingestOne tag _ text => (Value.parse tag text).map fun _ => ()
  | ingestRecord r i => r.toValue >>= fun _ => i.check r
  | ingestBatch rs i => (batchValues rs i).map fun _ => ()
  | _ => .ok ()

/-- A call brings a value under a name stored with the other kind. -/
def Clashes (s : Store) (op : Op) : Prop :=
  ∃ n v c, (n, v) ∈ op.incoming ∧ s.get? n = some c ∧ c.kind ≠ v.kind

/-- The arguments a client can give: a value handed to the store as it is is finite, as
every value `Value.parse` gives is (`Value.parse_finite`). -/
def Admissible : Op → Prop
  | ingestValue _ v => v.Finite
  | _ => True

theorem run_ingestOne (s : Store) (tag name text : String) :
    (ingestOne tag name text).run s =
      match s.ingestOne tag name text with
      | .ok (v, q) => (.ok (.value v), q)
      | .error e => (.error e, s) := by
  simp only [run]
  cases s.ingestOne tag name text <;> rfl

theorem run_ingestValue (s : Store) (name : String) (v : Value) :
    (ingestValue name v).run s =
      match s.ingestValue name v with
      | .ok (w, q) => (.ok (.value w), q)
      | .error e => (.error e, s) := by
  simp only [run]
  cases s.ingestValue name v <;> rfl

theorem run_ingestRecord (s : Store) (r : Record) (i : Integrity) :
    (ingestRecord r i).run s =
      match s.ingestRecord r i with
      | .ok (v, q) => (.ok (.value v), q)
      | .error e => (.error e, s) := by
  simp only [run]
  cases s.ingestRecord r i <;> rfl

theorem run_ingestBatch (s : Store) (rs : List Record) (i : Integrity) :
    (ingestBatch rs i).run s =
      match s.ingestBatch rs i with
      | .ok (n, q) => (.ok (.count n), q)
      | .error e => (.error e, s) := by
  simp only [run]
  cases s.ingestBatch rs i <;> rfl

end Op

/-- A successful batch keeps every stored name, with its kind. -/
theorem get?_of_ingestBatch {s q : Store} {rs : List Record} {i : Integrity} {m : Nat} {n : String}
    {c : Value} (h : s.ingestBatch rs i = .ok (m, q)) (hc : s.get? n = some c) :
    ∃ c', q.get? n = some c' ∧ c'.kind = c.kind := by
  obtain ⟨vs, -, hvs⟩ := ingestEach_eq_ok.1 (ingestBatch_eq_ok_iff.1 h).1
  exact get?_of_ingestValues hvs hc

/-- No call but a restore drops a stored name or binds it to another kind. -/
theorem run_keeps_kind {s : Store} {op : Op} {n : String} {c : Value}
    (hop : ∀ rs, op ≠ .restore rs) (hc : s.get? n = some c) :
    ∃ c', (op.run s).2.get? n = some c' ∧ c'.kind = c.kind := by
  cases op with
  | ingestOne tag name text =>
    rw [Op.run_ingestOne]
    cases h : s.ingestOne tag name text with
    | error e => exact ⟨c, hc, rfl⟩
    | ok p =>
      obtain ⟨v, -, hstep⟩ := ingestOne_eq_ok.1 h
      exact get?_of_ingestValue hstep hc
  | ingestValue name v =>
    rw [Op.run_ingestValue]
    cases h : s.ingestValue name v with
    | error e => exact ⟨c, hc, rfl⟩
    | ok p => exact get?_of_ingestValue h hc
  | ingestRecord r i =>
    rw [Op.run_ingestRecord]
    cases h : s.ingestRecord r i with
    | error e => exact ⟨c, hc, rfl⟩
    | ok p =>
      obtain ⟨v, -, -, hstep⟩ := ingestRecord_eq_ok.1 h
      exact get?_of_ingestValue hstep hc
  | ingestBatch rs i =>
    rw [Op.run_ingestBatch]
    cases h : s.ingestBatch rs i with
    | error e => exact ⟨c, hc, rfl⟩
    | ok p => exact get?_of_ingestBatch h hc
  | get tag name => exact ⟨c, hc, rfl⟩
  | listing => exact ⟨c, hc, rfl⟩
  | snapshot signer => exact ⟨c, hc, rfl⟩
  | restore rs => exact absurd rfl (hop rs)

theorem mem_of_accepted {rs : List Record} {i : Integrity} {vs : List (String × Value)}
    (h : Accepted rs i vs) {r : Record} (hr : r ∈ rs) {v : Value} (hv : r.toValue = .ok v) :
    (r.id, v) ∈ vs := by
  induction h with
  | nil => cases hr
  | @cons r' p rs' vs' hp _ ih =>
    rcases List.mem_cons.1 hr with rfl | hr
    · obtain ⟨n, w⟩ := p
      obtain ⟨hn, hw, -⟩ := hp
      rw [hv] at hw
      cases hw
      simp [← hn]
    · exact List.mem_cons_of_mem _ (ih hr)

/-- A batch holding a value of the other kind for a stored name never succeeds. -/
theorem ingestBatch_ne_ok_of_clash {s : Store} {rs : List Record} {i : Integrity} {r : Record}
    (hr : r ∈ rs) {v c : Value} (hv : r.toValue = .ok v) (hc : s.get? r.id = some c)
    (hk : c.kind ≠ v.kind) (m : Nat) (q : Store) : s.ingestBatch rs i ≠ .ok (m, q) := by
  intro hb
  obtain ⟨vs, hvs, hq⟩ := ingestEach_eq_ok.1 (ingestBatch_eq_ok_iff.1 hb).1
  exact hk (kind_of_mem_ingestValues hq (mem_of_accepted (batchValues_eq_ok.1 hvs) hr hv) hc)

/-- A call bringing a value of the other kind under a stored name fails, so it leaves the
store alone; when its checks pass, it fails with a `typeConflict`. -/
theorem run_of_clashes {s : Store} {op : Op} (h : op.Clashes s) :
    (∃ e, (op.run s).1 = .error e) ∧ (op.run s).2 = s ∧
      (op.checks = .ok () → ∃ n k k', (op.run s).1 = .error (.typeConflict n k k')) := by
  obtain ⟨n, v, c, hin, hc, hk⟩ := h
  suffices hfail : (∃ e, (op.run s).1 = .error e) ∧
      (op.checks = .ok () → ∃ n k k', (op.run s).1 = .error (.typeConflict n k k')) by
    obtain ⟨⟨e, he⟩, hconf⟩ := hfail
    exact ⟨⟨e, he⟩, Op.run_store_of_error he, hconf⟩
  have hmerge : s.ingestValue n v = .error (.typeConflict n c.kind v.kind) :=
    ingestValue_eq_error.2 (mergeInto_eq_error_iff.2 ⟨c, hc, hk, rfl⟩)
  cases op with
  | ingestOne tag name text =>
    obtain ⟨rfl, hp⟩ := pair_mem_named.1 hin
    rw [Op.run_ingestOne, ingestOne_eq_error.2 (.inr ⟨v, hp, hmerge⟩)]
    exact ⟨⟨_, rfl⟩, fun _ => ⟨_, _, _, rfl⟩⟩
  | ingestValue name v' =>
    simp only [Op.incoming, List.mem_singleton, Prod.mk.injEq] at hin
    obtain ⟨rfl, rfl⟩ := hin
    rw [Op.run_ingestValue, hmerge]
    exact ⟨⟨_, rfl⟩, fun _ => ⟨_, _, _, rfl⟩⟩
  | ingestRecord r i =>
    obtain ⟨rfl, hv⟩ := pair_mem_named.1 hin
    cases hchk : i.check r with
    | error e =>
      rw [Op.run_ingestRecord, ingestRecord_eq_error.2 (.inr ⟨v, hv, .inl hchk⟩)]
      refine ⟨⟨e, rfl⟩, fun hok => ?_⟩
      simp [Op.checks, hv, hchk] at hok
    | ok u =>
      rw [Op.run_ingestRecord, ingestRecord_eq_error.2 (.inr ⟨v, hv, .inr ⟨hchk, hmerge⟩⟩)]
      exact ⟨⟨_, rfl⟩, fun _ => ⟨_, _, _, rfl⟩⟩
  | ingestBatch rs i =>
    obtain ⟨r, hr, hmem⟩ := List.mem_flatMap.1 hin
    obtain ⟨rfl, hv⟩ := pair_mem_named.1 hmem
    rw [Op.run_ingestBatch]
    cases hb : s.ingestBatch rs i with
    | ok p => exact absurd hb (ingestBatch_ne_ok_of_clash hr hv hc hk p.1 p.2)
    | error e =>
      refine ⟨⟨e, rfl⟩, fun hok => ?_⟩
      obtain ⟨vs, hvs, -⟩ := Except.map_eq_ok.1 hok
      rcases ingestBatch_eq_error_iff.1 hb with href | ⟨_, _, hfc⟩
      · rw [batchValues_eq_error.2 href] at hvs
        cases hvs
      · obtain ⟨-, n', v', -, k, -, -, -, -, rfl⟩ := hfc
        exact ⟨n', k, v'.kind, rfl⟩
  | get tag name => cases hin
  | listing => cases hin
  | snapshot signer => cases hin
  | restore rs => cases hin

/-! ## Reachable stores -/

/-- Every call a client can make keeps the stored gauges finite. -/
theorem gaugesFinite_run {s : Store} {op : Op} (hs : s.GaugesFinite) (hop : op.Admissible) :
    (op.run s).2.GaugesFinite := by
  cases op with
  | ingestOne tag name text =>
    rw [Op.run_ingestOne]
    cases h : s.ingestOne tag name text with
    | error e => exact hs
    | ok p =>
      obtain ⟨v, hv, hstep⟩ := ingestOne_eq_ok.1 h
      exact gaugesFinite_ingestValue hs (Value.parse_finite hv) hstep
  | ingestValue name v =>
    rw [Op.run_ingestValue]
    cases h : s.ingestValue name v with
    | error e => exact hs
    | ok p => exact gaugesFinite_ingestValue hs hop h
  | ingestRecord r i =>
    rw [Op.run_ingestRecord]
    cases h : s.ingestRecord r i with
    | error e => exact hs
    | ok p =>
      obtain ⟨v, hv, -, hstep⟩ := ingestRecord_eq_ok.1 h
      exact gaugesFinite_ingestValue hs (Record.toValue_finite hv) hstep
  | ingestBatch rs i =>
    rw [Op.run_ingestBatch]
    cases h : s.ingestBatch rs i with
    | error e => exact hs
    | ok p =>
      obtain ⟨vs, hvs, hq⟩ := ingestEach_eq_ok.1 (ingestBatch_eq_ok_iff.1 h).1
      exact gaugesFinite_ingestValues hs (finite_of_accepted (batchValues_eq_ok.1 hvs)) hq
  | get tag name => exact hs
  | listing => exact hs
  | snapshot signer => exact hs
  | restore rs => exact gaugesFinite_ofRecords rs

/-- The stores a run of calls reaches from the empty store, each call succeeding or
failing. -/
inductive Reachable : Store → Prop
  | empty : Reachable {}
  | call {s : Store} (op : Op) : Reachable s → op.Admissible → Reachable (op.run s).2

theorem Reachable.gaugesFinite {s : Store} (h : Reachable s) : s.GaugesFinite := by
  induction h with
  | empty => exact gaugesFinite_empty
  | call op _ hop ih => exact gaugesFinite_run ih hop

/-- What a store reached by calls satisfies. -/
structure Invariant (s : Store) : Prop where
  /-- Every stored gauge is finite. -/
  gaugesFinite : s.GaugesFinite
  /-- No call but a restore drops a stored name or binds it to another kind. -/
  keepsKinds : ∀ (op : Op) (n : String) (c : Value), (∀ rs, op ≠ .restore rs) →
    s.get? n = some c → ∃ c', (op.run s).2.get? n = some c' ∧ c'.kind = c.kind
  /-- A call bringing a value of the other kind under a stored name fails and leaves the
  store as it was, with a `typeConflict` once its checks pass. -/
  clashFails : ∀ op : Op, op.Clashes s → (∃ e, (op.run s).1 = .error e) ∧ (op.run s).2 = s ∧
    (op.checks = .ok () → ∃ n k k', (op.run s).1 = .error (.typeConflict n k k'))
  /-- A call that fails for any cause leaves the store as it was. -/
  failureKeeps : ∀ (op : Op) (e : MetricError), (op.run s).1 = .error e → (op.run s).2 = s
  /-- A query succeeds exactly when its tag names the kind stored under the name, and then
  answers the stored value. -/
  getAnswers : ∀ (tag name : String) (v : Value), s.get tag name = .ok v ↔
    ∃ k, Kind.parse tag = .ok k ∧ s.get? name = some v ∧ v.kind = k

/-- **The store invariant.** Every store reached from the empty store by any calls keeps its
gauges finite, keeps every name and its kind through every call but a restore, refuses a
value of the other kind without touching the store, and answers queries by kind. -/
theorem reachable_invariant {s : Store} (h : Reachable s) : s.Invariant where
  gaugesFinite := h.gaugesFinite
  keepsKinds _ _ _ hop hc := run_keeps_kind hop hc
  clashFails _ hclash := run_of_clashes hclash
  failureKeeps _ _ he := Op.run_store_of_error he
  getAnswers _ _ _ := get_eq_ok_iff

/-- The invariant after a counter update on the empty store. -/
theorem invariant_after_update :
    Reachable ((Op.ingestOne "counter" "PollCount" "10").run {}).2 ∧
      ((Op.ingestOne "counter" "PollCount" "10").run {}).2.Invariant :=
  have h : Reachable ((Op.ingestOne "counter" "PollCount" "10").run {}).2 :=
    .call _ .empty trivial
  ⟨h, reachable_invariant h⟩

end Store

end Telemetry

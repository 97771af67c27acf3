import Telemetry.Proofs.Store.Basic
import Mathlib.Data.List.Dedup

/-
  A batch is applied all or nothing, and when applied it is the same as ingesting its
  records one call after another.

  `ingestBatch` checks every record first (value, then hash), then merges the values into a
  staging store, each against the staged value of its name when there is one and against the
  live store otherwise, and last writes the staging store over the live one. `ingestEach` is
  the sequential reading: one `ingestRecord` per record, each on the store the previous one
  left, stopping at the first failure.

  The staging store shadows the live one exactly: writing it over the live store gives what
  merging the same values one by one into the live store gives (`stage_putAll`). That rests
  on two facts of the entry list: a name written again keeps its place and only its last
  value (`putAll_put`), and the staged names are distinct, so the staged value of a name is
  the one a lookup finds (`get?_putAll`).

  Failures come in two rounds. The first record that a check refuses decides the error
  (`FirstRefusal`); only when all pass does the first value whose kind clashes with the
  stored kind or with an earlier value of the batch decide it (`FirstConflict`). A sequential
  run can fail on a clash before it reaches a refused record, so the two orders differ, but
  the runs succeed together and end in the same store (`ingestBatch_eq_ok_iff`).
-/

namespace Telemetry

namespace Store

/-- The names of the entries, in order. -/
def keys (s : Store) : List String := s.entries.map Prod.fst

/-- Writes named values over a store, in order. -/
def putAll (s : Store) (l : List (String × Value)) : Store :=
  l.foldl (fun acc p => acc.put p.1 p.2) s

/-- Ingests named values one after another, stopping at the first failure. -/
def ingestValues (s : Store) : List (String × Value) → Except MetricError Store
  | [] => .ok s
  | (n, v) :: rest => do
    let (_, q) ← s.ingestValue n v
    q.ingestValues rest

/-- Ingests records as separate calls would: each checked and then merged into the store
the previous ones left, stopping at the first failure. -/
def ingestEach (s : Store) (i : Integrity) : List Record → Except MetricError Store
  | [] => .ok s
  | r :: rest => do
    let (_, q) ← s.ingestRecord r i
    q.ingestEach i rest

/-! ## Writing many values -/

@[simp] theorem putAll_nil (s : Store) : s.putAll [] = s := rfl

@[simp] theorem putAll_cons (s : Store) (p : String × Value) (l : List (String × Value)) :
    s.putAll (p :: l) = (s.put p.1 p.2).putAll l := rfl

theorem putAll_append (s : Store) (l₁ l₂ : List (String × Value)) :
    s.putAll (l₁ ++ l₂) = (s.putAll l₁).putAll l₂ := by
  simp [putAll, List.foldl_append]

theorem isSome_get?_put {s : Store} {n : String} (k : String) (v : Value) (h : (s.get? n).isSome) :
    ((s.put k v).get? n).isSome := by
  rw [get?_put]
  split <;> simp [h]

/-- A name already stored: writing it after a run of writes is writing it first and then
the run with that name's values replaced. -/
theorem putAll_put_of_isSome {x : Store} {n : String} (m : Value) (l : List (String × Value))
    (hn : (x.get? n).isSome) :
    (x.putAll l).put n m = (x.put n m).putAll (l.map fun p => if p.1 == n then (p.1, m) else p) := by
  induction l generalizing x with
  | nil => rfl
  | cons p l ih =>
    obtain ⟨k, w⟩ := p
    rw [putAll_cons, ih (isSome_get?_put k w hn), List.map_cons, putAll_cons]
    by_cases hk : k = n
    · subst hk
      simp only [beq_self_eq_true, if_true, put_put_self]
    · simp only [beq_false_of_ne hk, Bool.false_eq_true, if_false]
      rw [put_comm_of_isSome w m hn hk]

/-- Replacing a name's values in a run of writes is writing that name after the run. -/
theorem putAll_map_replace {x : Store} {n : String} (m : Value) {l : List (String × Value)}
    (hn : n ∈ l.map Prod.fst) :
    x.putAll (l.map fun p => if p.1 == n then (p.1, m) else p) = (x.putAll l).put n m := by
  induction l generalizing x with
  | nil => simp at hn
  | cons p l ih =>
    obtain ⟨k, w⟩ := p
    rw [List.map_cons, putAll_cons, putAll_cons]
    by_cases hk : k = n
    · subst hk
      simp only [beq_self_eq_true, if_true]
      rw [putAll_put_of_isSome m l (by simp), put_put_self]
    · simp only [beq_false_of_ne hk, Bool.false_eq_true, if_false]
      have hn' : n ∈ l.map Prod.fst := by
        simp only [List.map_cons, List.mem_cons] at hn
        exact hn.resolve_left (Ne.symm hk)
      exact ih hn'

theorem mem_keys_iff {s : Store} {n : String} : n ∈ s.keys ↔ (s.get? n).isSome := by
  simp only [keys, get?, List.lookup_isSome_iff, List.mem_map, beq_iff_eq]
  constructor
  · rintro ⟨p, hp, rfl⟩
    exact ⟨p, hp, rfl⟩
  · rintro ⟨p, hp, rfl⟩
    exact ⟨p, hp, rfl⟩

/-- Writing the entries of a staging store after one more write to it is making that
write last. -/
theorem putAll_put (x t : Store) (n : String) (m : Value) :
    x.putAll (t.put n m).entries = (x.putAll t.entries).put n m := by
  by_cases h : (t.get? n).isSome
  · rw [put_of_isSome m h]
    exact putAll_map_replace m (mem_keys_iff.2 h)
  · rw [put_of_none m (by simpa using h), putAll_append]
    rfl

theorem keys_put (s : Store) (n : String) (v : Value) :
    (s.put n v).keys = if (s.get? n).isSome then s.keys else s.keys ++ [n] := by
  by_cases h : (s.get? n).isSome
  · rw [put_of_isSome v h, if_pos h]
    simp only [keys, List.map_map]
    apply List.map_congr_left
    rintro ⟨k, w⟩ _
    by_cases hk : k = n <;> simp [hk]
  · rw [put_of_none v (by simpa using h), if_neg h]
    simp [keys]

theorem nodup_keys_put {s : Store} (n : String) (v : Value) (h : s.keys.Nodup) :
    (s.put n v).keys.Nodup := by
  rw [keys_put]
  split
  · exact h
  · rename_i hn
    rw [List.nodup_append]
    refine ⟨h, by simp, ?_⟩
    intro a ha b hb
    simp only [List.mem_singleton] at hb
    subst hb
    rintro rfl
    exact hn (mem_keys_iff.1 ha)

theorem mem_keys_put {s : Store} {n a : String} (v : Value) :
    a ∈ (s.put n v).keys ↔ a ∈ s.keys ∨ a = n := by
  simp only [mem_keys_iff, get?_put]
  split <;> simp_all

/-- With distinct names, the last write of a name in a run is its first entry. -/
theorem get?_putAll (x : Store) {l : List (String × Value)} (hl : (l.map Prod.fst).Nodup)
    (m : String) : (x.putAll l).get? m = (l.lookup m).or (x.get? m) := by
  induction l generalizing x with
  | nil => simp
  | cons p l ih =>
    obtain ⟨k, w⟩ := p
    simp only [List.map_cons, List.nodup_cons] at hl
    rw [putAll_cons, ih _ hl.2, lookup_cons_ite, get?_put]
    by_cases hm : m = k
    · subst hm
      have hnone : l.lookup m = none := by
        rw [List.lookup_eq_none_iff]
        intro p hp
        have : p.1 ≠ m := fun e => hl.1 (e ▸ List.mem_map_of_mem hp)
        exact bne_iff_ne.2 (Ne.symm this)
      simp [hnone]
    · simp [hm]

/-! ## The staging store shadows the live one -/

theorem ingestValues_cons (s : Store) (n : String) (v : Value) (rest : List (String × Value)) :
    s.ingestValues ((n, v) :: rest) = (s.ingestValue n v >>= fun p => p.2.ingestValues rest) :=
  rfl

theorem stage_cons (s t : Store) (n : String) (v : Value) (rest : List (String × Value)) :
    stage s t ((n, v) :: rest) =
      ((match t.get? n with
        | some _ => t.mergeInto n v
        | none => s.mergeInto n v) >>= fun m => stage s (t.put n m) rest) := by
  rw [stage]
  cases t.get? n <;> rfl

/-- The staged merge of a value is its merge into the staging store written over the live
one. -/
theorem staged_merge_eq (s t : Store) (ht : t.keys.Nodup) (n : String) (v : Value) :
    (match t.get? n with
      | some _ => t.mergeInto n v
      | none => s.mergeInto n v) = (s.putAll t.entries).mergeInto n v := by
  have hview := get?_putAll s ht n
  cases h : t.get? n with
  | some c =>
    apply mergeInto_congr
    rw [hview]
    simp only [get?] at h
    simp [h, get?]
  | none =>
    apply mergeInto_congr
    rw [hview]
    simp only [get?] at h
    simp [h]

/-- Staging and then writing the staging store over the live one is ingesting the values
one by one into the live store: the same result and the same error. -/
theorem stage_putAll (s t : Store) (ht : t.keys.Nodup) (vs : List (String × Value)) :
    (fun t' => s.putAll t'.entries) <$> stage s t vs = (s.putAll t.entries).ingestValues vs := by
  induction vs generalizing t with
  | nil => rfl
  | cons p vs ih =>
    obtain ⟨n, v⟩ := p
    rw [stage_cons, ingestValues_cons, staged_merge_eq s t ht]
    cases hm : (s.putAll t.entries).mergeInto n v with
    | error e =>
      rw [ingestValue_eq_error.2 hm]
      rfl
    | ok m =>
      have hstep : (s.putAll t.entries).ingestValue n v = .ok (m, (s.putAll t.entries).put n m) :=
        ingestValue_eq_ok.2 ⟨hm, rfl⟩
      rw [hstep]
      change (fun t' => s.putAll t'.entries) <$> stage s (t.put n m) vs = _
      rw [ih (t.put n m) (nodup_keys_put n m ht), putAll_put]
      rfl

/-- The staging store names each name of the batch once. -/
theorem keys_of_stage {s t t' : Store} {vs : List (String × Value)} (h : stage s t vs = .ok t')
    (ht : t.keys.Nodup) : t'.keys.Nodup ∧ ∀ a, a ∈ t'.keys ↔ a ∈ t.keys ∨ a ∈ vs.map Prod.fst := by
  induction vs generalizing t with
  | nil =>
    cases h
    simp [ht]
  | cons p vs ih =>
    obtain ⟨n, v⟩ := p
    rw [stage_cons] at h
    obtain ⟨m, -, hrest⟩ := Except.bind_eq_ok.1 h
    obtain ⟨hnd, hmem⟩ := ih hrest (nodup_keys_put n m ht)
    refine ⟨hnd, fun a => ?_⟩
    rw [hmem, mem_keys_put]
    simp only [List.map_cons, List.mem_cons]
    tauto

/-! ## Checking the records -/

/-- Every record passes both checks, and `vs` holds their names and values in order. -/
def Accepted (rs : List Record) (i : Integrity) (vs : List (String × Value)) : Prop :=
  List.Forall₂ (fun r p => p.1 = r.id ∧ r.toValue = .ok p.2 ∧ i.check r = .ok ()) rs vs

/-- The first record that a check refuses, its value checked before its hash, fails with
`e`; every record before it passes both checks. -/
def FirstRefusal (rs : List Record) (i : Integrity) (e : MetricError) : Prop :=
  ∃ pre r post, rs = pre ++ r :: post ∧
    (∀ r' ∈ pre, (∃ v, r'.toValue = .ok v) ∧ i.check r' = .ok ()) ∧
    (r.toValue = .error e ∨ (∃ v, r.toValue = .ok v) ∧ i.check r = .error e)

theorem batchValues_eq_ok {rs : List Record} {i : Integrity} {vs : List (String × Value)} :
    batchValues rs i = .ok vs ↔ Accepted rs i vs := by
  unfold batchValues Accepted
  rw [Except.mapM_eq_ok]
  constructor <;> refine List.Forall₂.imp fun r p h => ?_
  · simp only [Except.bind_eq_ok, Except.pure_eq_ok] at h
    obtain ⟨v, hv, _, hc, rfl⟩ := h
    exact ⟨rfl, hv, hc⟩
  · obtain ⟨n, v⟩ := p
    obtain ⟨rfl, hv, hc⟩ := h
    simp only [Except.bind_eq_ok, Except.pure_eq_ok]
    exact ⟨v, hv, (), hc, rfl⟩

theorem batchValues_eq_error {rs : List Record} {i : Integrity} {e : MetricError} :
    batchValues rs i = .error e ↔ FirstRefusal rs i e := by
  unfold batchValues FirstRefusal
  rw [Except.mapM_eq_error]
  simp only [Except.bind_eq_ok, Except.bind_eq_error, Except.pure_eq_ok, Except.pure_ne_error,
    and_false, exists_false, or_false]
  constructor
  · rintro ⟨pre, r, post, rfl, hpre, hr⟩
    refine ⟨pre, r, post, rfl, fun r' hr' => ?_, ?_⟩
    · obtain ⟨_, v, hv, _, hc, -⟩ := hpre r' hr'
      exact ⟨⟨v, hv⟩, hc⟩
    · rcases hr with hr | ⟨v, hv, hc⟩
      · exact .inl hr
      · exact .inr ⟨⟨v, hv⟩, hc⟩
  · rintro ⟨pre, r, post, rfl, hpre, hr⟩
    refine ⟨pre, r, post, rfl, fun r' hr' => ?_, ?_⟩
    · obtain ⟨⟨v, hv⟩, hc⟩ := hpre r' hr'
      exact ⟨(r'.id, v), v, hv, (), hc, rfl⟩
    · rcases hr with hr | ⟨⟨v, hv⟩, hc⟩
      · exact .inl hr
      · exact .inr ⟨v, hv, hc⟩

theorem names_of_accepted {rs : List Record} {i : Integrity} {vs : List (String × Value)}
    (h : Accepted rs i vs) : vs.map Prod.fst = rs.map Record.id := by
  induction h with
  | nil => rfl
  | cons hp _ ih =>
    simp only [List.map_cons, hp.1, ih]

/-- Separate calls succeed exactly when every record passes its checks and the values,
merged one by one, never clash. -/
theorem ingestEach_eq_ok {s q : Store} {i : Integrity} {rs : List Record} :
    s.ingestEach i rs = .ok q ↔ ∃ vs, batchValues rs i = .ok vs ∧ s.ingestValues vs = .ok q := by
  induction rs generalizing s with
  | nil =>
    simp only [ingestEach, batchValues, List.mapM_nil, Except.pure_eq_ok, exists_eq_left']
    rfl
  | cons r rs ih =>
    simp only [batchValues_eq_ok] at ih ⊢
    simp only [ingestEach, Except.bind_eq_ok, ingestRecord_eq_ok]
    constructor
    · rintro ⟨⟨w, q'⟩, ⟨v, hv, hc, hi⟩, hrest⟩
      obtain ⟨vs, hvs, hq⟩ := ih.1 hrest
      refine ⟨(r.id, v) :: vs, .cons ⟨rfl, hv, hc⟩ hvs, ?_⟩
      rw [ingestValues_cons, hi]
      exact hq
    · rintro ⟨_ | ⟨⟨n, v⟩, vs⟩, hacc, hq⟩
      · cases hacc
      · obtain ⟨⟨rfl, hv, hc⟩, hvs⟩ := List.forall₂_cons.1 hacc
        rw [ingestValues_cons] at hq
        obtain ⟨⟨w, q'⟩, hi, hrest⟩ := Except.bind_eq_ok.1 hq
        exact ⟨(w, q'), ⟨v, hv, hc, hi⟩, ih.2 ⟨vs, hvs, hrest⟩⟩

/-- Separate calls over two lists of records: the calls over the first, then the calls over
the second on the store the first left. -/
theorem ingestEach_append (s : Store) (i : Integrity) (a b : List Record) :
    s.ingestEach i (a ++ b) = (s.ingestEach i a >>= fun q => q.ingestEach i b) := by
  induction a generalizing s with
  | nil => rfl
  | cons r a ih =>
    simp only [List.cons_append, ingestEach]
    cases s.ingestRecord r i with
    | error e => rfl
    | ok p => exact ih p.2

/-! ## Clashing kinds -/

/-- When a value of a batch arrives after the values `pre`, its name `n` is bound to kind
`k`: by the value stored in `s`, or by an earlier value of the batch. -/
def BoundTo (s : Store) (pre : List (String × Value)) (n : String) (k : Kind) : Prop :=
  (∃ c, s.get? n = some c ∧ c.kind = k) ∨ ∃ c, (n, c) ∈ pre ∧ c.kind = k

/-- No value of `pre` arrives under a name bound to another kind. -/
def Settled (s : Store) (pre : List (String × Value)) : Prop :=
  ∀ pre₁ n v post k, pre = pre₁ ++ (n, v) :: post → BoundTo s pre₁ n k → k = v.kind

/-- The first value of `vs` that arrives under a name bound to another kind fails with the
`typeConflict` of that kind and its own. -/
def FirstConflict (s : Store) (vs : List (String × Value)) (e : MetricError) : Prop :=
  ∃ pre n v post k, vs = pre ++ (n, v) :: post ∧ Settled s pre ∧
    BoundTo s pre n k ∧ k ≠ v.kind ∧ e = .typeConflict n k v.kind

theorem settled_nil (s : Store) : Settled s [] := by
  intro pre₁ n v post k h
  simp at h

/-- After a value is merged, a name is bound in the new store as it was bound in the old one
with that value counted among the earlier ones. -/
theorem boundTo_after {s q : Store} {n n' : String} {v w : Value} {pre : List (String × Value)}
    {k : Kind} (h : s.ingestValue n v = .ok (w, q)) :
    BoundTo q pre n' k ↔ BoundTo s ((n, v) :: pre) n' k := by
  obtain ⟨hm, rfl⟩ := ingestValue_eq_ok.1 h
  have hw : w.kind = v.kind := kind_of_mergeInto hm
  unfold BoundTo
  by_cases hn : n' = n
  · subst hn
    simp only [get?_put_self, Option.some.injEq, exists_eq_left', hw, List.mem_cons,
      Prod.mk.injEq, true_and]
    constructor
    · rintro (hk | ⟨c, hc, hk⟩)
      · exact .inr ⟨v, .inl rfl, hk⟩
      · exact .inr ⟨c, .inr hc, hk⟩
    · rintro (⟨c, hc, hk⟩ | ⟨c, rfl | hc, hk⟩)
      · exact .inl (hw ▸ (stored_kind_of_mergeInto hm hc).trans hk)
      · exact .inl hk
      · exact .inr ⟨c, hc, hk⟩
  · simp [hn]

theorem settled_cons {s q : Store} {n : String} {v w : Value} {pre : List (String × Value)}
    (h : s.ingestValue n v = .ok (w, q)) : Settled s ((n, v) :: pre) ↔ Settled q pre := by
  constructor
  · intro hs pre₁ n₁ v₁ post k hsplit hb
    exact hs ((n, v) :: pre₁) n₁ v₁ post k (by rw [hsplit]; rfl) ((boundTo_after h).1 hb)
  · intro hq pre₁ n₁ v₁ post k hsplit hb
    cases pre₁ with
    | nil =>
      simp only [List.nil_append, List.cons.injEq, Prod.mk.injEq] at hsplit
      obtain ⟨⟨rfl, rfl⟩, -⟩ := hsplit
      obtain ⟨hm, -⟩ := ingestValue_eq_ok.1 h
      rcases hb with ⟨c, hc, rfl⟩ | ⟨c, hc, -⟩
      · rw [← stored_kind_of_mergeInto hm hc, kind_of_mergeInto hm]
      · cases hc
    | cons p pre₁ =>
      simp only [List.cons_append, List.cons.injEq] at hsplit
      obtain ⟨rfl, hsplit⟩ := hsplit
      exact hq pre₁ n₁ v₁ post k hsplit ((boundTo_after h).2 hb)

/-- The first value of a settled run merges. -/
theorem ingestValue_ok_of_settled {s : Store} {n : String} {v : Value}
    {pre : List (String × Value)} (hs : Settled s ((n, v) :: pre)) :
    ∃ w, s.ingestValue n v = .ok (w, s.put n w) := by
  have hhead : ∀ k, BoundTo s [] n k → k = v.kind :=
    fun k hb => hs [] n v pre k rfl hb
  cases hget : s.get? n with
  | none =>
    exact ⟨v, ingestValue_eq_ok.2 ⟨mergeInto_eq_ok_iff.2 (.inl ⟨hget, rfl⟩), rfl⟩⟩
  | some c =>
    have hk : c.kind = v.kind := hhead c.kind (.inl ⟨c, hget, rfl⟩)
    cases hm : c.merge v with
    | none => exact absurd hk (Value.merge_eq_none_iff.1 hm)
    | some w => exact ⟨w, ingestValue_eq_ok.2 ⟨mergeInto_eq_ok_iff.2 (.inr ⟨c, hget, hm⟩), rfl⟩⟩

/-- Values merged one by one fail exactly at the first clash of kinds, with its
`typeConflict`. -/
theorem ingestValues_eq_error {s : Store} {vs : List (String × Value)} {e : MetricError} :
    s.ingestValues vs = .error e ↔ FirstConflict s vs e := by
  constructor
  · intro h
    induction vs generalizing s with
    | nil => cases h
    | cons p rest ih =>
      obtain ⟨n, v⟩ := p
      rw [ingestValues_cons, Except.bind_eq_error] at h
      rcases h with h | ⟨⟨w, q⟩, hstep, hrest⟩
      · obtain ⟨c, hc, hk, rfl⟩ := mergeInto_eq_error_iff.1 (ingestValue_eq_error.1 h)
        exact ⟨[], n, v, rest, c.kind, rfl, settled_nil s, .inl ⟨c, hc, rfl⟩, hk, rfl⟩
      · obtain ⟨pre, n', v', post, k, rfl, hs, hb, hk, rfl⟩ := ih hrest
        exact ⟨(n, v) :: pre, n', v', post, k, rfl, (settled_cons hstep).2 hs,
          (boundTo_after hstep).1 hb, hk, rfl⟩
  · rintro ⟨pre, n, v, post, k, rfl, hs, hb, hk, rfl⟩
    induction pre generalizing s with
    | nil =>
      rcases hb with ⟨c, hc, rfl⟩ | ⟨c, hc, -⟩
      · rw [List.nil_append, ingestValues_cons, ingestValue_eq_error.2
          (mergeInto_eq_error_iff.2 ⟨c, hc, hk, rfl⟩)]
        rfl
      · cases hc
    | cons p pre ih =>
      obtain ⟨n₀, v₀⟩ := p
      obtain ⟨w, hstep⟩ := ingestValue_ok_of_settled hs
      rw [List.cons_append, ingestValues_cons, hstep]
      exact ih ((settled_cons hstep).1 hs) ((boundTo_after hstep).2 hb)

/-! ## The batch -/

theorem ingestBatch_eq (s : Store) (rs : List Record) (i : Integrity) :
    s.ingestBatch rs i = (batchValues rs i >>= fun vs => stage s {} vs >>= fun t =>
      pure (t.entries.length, s.putAll t.entries)) :=
  rfl

theorem keys_empty : ({} : Store).keys = [] := rfl

/-- The staging store has one entry per distinct name of the batch. -/
theorem length_of_stage {s t : Store} {vs : List (String × Value)} (h : stage s {} vs = .ok t) :
    t.entries.length = (vs.map Prod.fst).dedup.length := by
  obtain ⟨hnd, hmem⟩ := keys_of_stage h (by simp [keys_empty])
  have hperm : t.keys.Perm (vs.map Prod.fst).dedup := by
    rw [List.perm_ext_iff_of_nodup hnd (List.nodup_dedup _)]
    intro a
    simp [hmem, List.mem_dedup, keys_empty]
  simpa [keys] using hperm.length_eq

/-- A batch succeeds exactly when separate calls would, ends in the same store and answers
the number of distinct names. -/
theorem ingestBatch_eq_ok_iff {s q : Store} {rs : List Record} {i : Integrity} {n : Nat} :
    s.ingestBatch rs i = .ok (n, q) ↔
      s.ingestEach i rs = .ok q ∧ n = (rs.map Record.id).dedup.length := by
  have hshadow := fun vs => stage_putAll s {} (by simp [keys_empty]) vs
  rw [ingestBatch_eq, ingestEach_eq_ok]
  simp only [Except.bind_eq_ok, Except.pure_eq_ok, Prod.mk.injEq]
  constructor
  · rintro ⟨vs, hvs, t, ht, rfl, rfl⟩
    have hseq := hshadow vs
    rw [ht] at hseq
    refine ⟨⟨vs, hvs, hseq.symm⟩, ?_⟩
    rw [length_of_stage ht, names_of_accepted (batchValues_eq_ok.1 hvs)]
  · rintro ⟨⟨vs, hvs, hq⟩, rfl⟩
    have hseq := hshadow vs
    rw [show ({} : Store).entries = [] from rfl, putAll_nil, hq] at hseq
    obtain ⟨t, ht, rfl⟩ := Except.map_eq_ok.1 hseq
    refine ⟨vs, hvs, t, ht, ?_, rfl⟩
    rw [length_of_stage ht, names_of_accepted (batchValues_eq_ok.1 hvs)]

/-- A batch fails with the first refused record's error, or, when every record passes its
checks, with the first clash of kinds. -/
theorem ingestBatch_eq_error_iff {s : Store} {rs : List Record} {i : Integrity} {e : MetricError} :
    s.ingestBatch rs i = .error e ↔
      FirstRefusal rs i e ∨ ∃ vs, Accepted rs i vs ∧ FirstConflict s vs e := by
  rw [ingestBatch_eq]
  simp only [Except.bind_eq_error, Except.pure_ne_error, and_false, exists_false, or_false]
  apply or_congr batchValues_eq_error
  apply exists_congr
  intro vs
  apply and_congr batchValues_eq_ok
  have hshadow := stage_putAll s {} (by simp [keys_empty]) vs
  rw [show ({} : Store).entries = [] from rfl, putAll_nil] at hshadow
  rw [← ingestValues_eq_error, ← hshadow, Except.map_eq_error]

/-- **A batch is all or nothing.** It succeeds exactly when ingesting its records as
separate calls would succeed, and then leaves the store those calls leave and answers the
number of distinct names. Otherwise it fails with the error of the first record whose value
or hash is refused, or, when every record passes, with the `typeConflict` of the first value
whose name is bound to another kind by the store or by an earlier value of the batch; and
the store stays as it was. -/
theorem ingestBatch_all_or_nothing (s : Store) (rs : List Record) (i : Integrity) :
    (∀ n q, s.ingestBatch rs i = .ok (n, q) ↔
      s.ingestEach i rs = .ok q ∧ n = (rs.map Record.id).dedup.length) ∧
    (∀ e, s.ingestBatch rs i = .error e ↔
      FirstRefusal rs i e ∨ ∃ vs, Accepted rs i vs ∧ FirstConflict s vs e) ∧
    (∀ e, ((Op.ingestBatch rs i).run s).1 = .error e → ((Op.ingestBatch rs i).run s).2 = s) :=
  ⟨fun _ _ => ingestBatch_eq_ok_iff, fun _ => ingestBatch_eq_error_iff,
    fun _ => Op.run_store_of_error⟩

end Store

end Telemetry

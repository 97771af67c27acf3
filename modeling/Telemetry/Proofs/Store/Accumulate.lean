import Mathlib
import Telemetry.Proofs.Store.Reachable

/-
  Counter totals after a run of calls.

  A call that succeeds, other than a restore, leaves the store that merging the values it
  brings in, one by one, leaves (`ingestValues_of_run`); a run of successful calls does the
  same with all their values in order (`ingestValues_of_runAll`). Under one name a counter
  moves by `saturatingAdd`, which clamps every partial total to the 64-bit range. So the
  total a run leaves is the left fold of saturating additions over the deltas in the order
  they arrive (`counterTotal_of_runAll`), whichever call brought them: a text, a record or an
  entry of a batch.

  A fold of saturating additions is the plain sum only while no running total leaves the
  range (`foldl_saturatingAdd_of_sumsInRange`). Two orders of the same calls then end at the
  same total (`counter_total_of_serial_orders`). Once a running total reaches a bound the
  order counts: the deltas `max, 1, -1` end one below `max`, while `max, -1, 1` end at `max`
  (`counter_total_depends_on_order`).
-/

namespace Telemetry

namespace Value

/-! ## Saturating addition -/

theorem counterMin_eq : counterMin = -9223372036854775808 := by decide

theorem counterMax_eq : counterMax = 9223372036854775807 := by decide

/-- A saturating sum is the plain sum clamped to the counter range. -/
theorem toInt_saturatingAdd (a b : Int64) :
    (saturatingAdd a b).toInt = max counterMin (min counterMax (a.toInt + b.toInt)) := by
  rw [saturatingAdd, Int64.toInt_ofInt_of_le] <;> simp only [counterMin_eq, counterMax_eq] <;>
    omega

theorem toInt_saturatingAdd_of_mem {a b : Int64} (hlo : counterMin ≤ a.toInt + b.toInt)
    (hhi : a.toInt + b.toInt ≤ counterMax) : (saturatingAdd a b).toInt = a.toInt + b.toInt := by
  rw [toInt_saturatingAdd]
  omega

/-- A counter that starts at an absent name takes the first delta as it is. -/
@[simp] theorem saturatingAdd_zero_left (d : Int64) : saturatingAdd 0 d = d := by
  have hlo := Int64.le_toInt d
  have hhi := Int64.toInt_lt d
  apply Int64.toInt_inj.1
  rw [toInt_saturatingAdd_of_mem] <;> simp only [Int64.toInt_zero, Int.zero_add, counterMin_eq,
    counterMax_eq] <;> omega

/-- Every running total of the deltas, counted from `c`, lies in the counter range. -/
def SumsInRange (c : Int) : List Int64 → Prop
  | [] => True
  | d :: ds => counterMin ≤ c + d.toInt ∧ c + d.toInt ≤ counterMax ∧ SumsInRange (c + d.toInt) ds

instance decSumsInRange : (c : Int) → (ds : List Int64) → Decidable (SumsInRange c ds)
  | _, [] => isTrue trivial
  | c, d :: ds =>
    @instDecidableAnd _ _ (Int.decLe _ _)
      (@instDecidableAnd _ _ (Int.decLe _ _) (decSumsInRange (c + d.toInt) ds))

/-- While no running total leaves the range, saturating addition is plain addition. -/
theorem foldl_saturatingAdd_of_sumsInRange {c : Int64} {ds : List Int64}
    (h : SumsInRange c.toInt ds) :
    (ds.foldl saturatingAdd c).toInt = c.toInt + (ds.map Int64.toInt).sum := by
  induction ds generalizing c with
  | nil => simp
  | cons d ds ih =>
    obtain ⟨hlo, hhi, hrest⟩ := h
    have hstep : (saturatingAdd c d).toInt = c.toInt + d.toInt :=
      toInt_saturatingAdd_of_mem hlo hhi
    rw [List.foldl_cons, ih (hstep ▸ hrest), hstep, List.map_cons, List.sum_cons, Int.add_assoc]

end Value

namespace Store

/-! ## Values arriving under one name -/

/-- The values among `vs` that arrive under the name `n`, in order. -/
def arrivals (n : String) (vs : List (String × Value)) : List Value :=
  (vs.filter fun p => p.1 == n).map Prod.snd

@[simp] theorem arrivals_nil (n : String) : arrivals n [] = [] := rfl

theorem arrivals_cons (n m : String) (v : Value) (vs : List (String × Value)) :
    arrivals n ((m, v) :: vs) = if m = n then v :: arrivals n vs else arrivals n vs := by
  by_cases h : m = n <;> simp [arrivals, h]

theorem arrivals_perm (n : String) {l₁ l₂ : List (String × Value)} (h : l₁.Perm l₂) :
    (arrivals n l₁).Perm (arrivals n l₂) :=
  (h.filter _).map _

/-- The counter total under a name: zero while the name is absent, none for a gauge. -/
def counterTotal (s : Store) (n : String) : Option Int64 :=
  match s.get? n with
  | none => some 0
  | some (.counter c) => some c
  | some (.gauge _) => none

/-- A counter delta merges into a name's total by saturating addition. -/
theorem mergeInto_counter {s : Store} {n : String} {c : Int64} (hc : s.counterTotal n = some c)
    (d : Int64) : s.mergeInto n (.counter d) = .ok (.counter (Value.saturatingAdd c d)) := by
  unfold counterTotal at hc
  unfold mergeInto
  cases hget : s.get? n with
  | none =>
    -- an absent name counts from zero
    simp only [hget, Option.some.injEq] at hc
    simp [← hc]
  | some v =>
    cases v with
    | gauge x => simp [hget] at hc
    | counter a =>
      simp only [hget, Option.some.injEq] at hc
      subst hc
      rfl

/-- A counter delta merged under a name moves its total by saturating addition. -/
theorem counterTotal_ingestValue_self {s q : Store} {n : String} {c d : Int64} {w : Value}
    (h : s.ingestValue n (.counter d) = .ok (w, q)) (hc : s.counterTotal n = some c) :
    q.counterTotal n = some (Value.saturatingAdd c d) := by
  obtain ⟨hm, rfl⟩ := ingestValue_eq_ok.1 h
  have hw : w = .counter (Value.saturatingAdd c d) := by
    rcases mergeInto_eq_ok_iff.1 hm with ⟨hnone, rfl⟩ | ⟨c', hc', hmerge⟩
    · -- an absent name counts from zero
      simp only [counterTotal, hnone, Option.some.injEq] at hc
      simp [← hc]
    · cases c' with
      | gauge x => simp [counterTotal, hc'] at hc
      | counter a =>
        simp only [counterTotal, hc', Option.some.injEq] at hc
        subst hc
        simpa [Value.merge, eq_comm] using hmerge
  simp [counterTotal, hw]

theorem counterTotal_ingestValue_of_ne {s q : Store} {n m : String} {v w : Value}
    (h : s.ingestValue m v = .ok (w, q)) (hm : m ≠ n) : q.counterTotal n = s.counterTotal n := by
  obtain ⟨-, rfl⟩ := ingestValue_eq_ok.1 h
  simp [counterTotal, get?_put_of_ne w (Ne.symm hm)]

/-- Merging values one by one moves the total of a name by saturating addition of the deltas
that arrive under it, in order. -/
theorem counterTotal_ingestValues {s q : Store} {vs : List (String × Value)} {n : String}
    {c : Int64} {ds : List Int64} (h : s.ingestValues vs = .ok q)
    (hc : s.counterTotal n = some c) (hds : arrivals n vs = ds.map .counter) :
    q.counterTotal n = some (ds.foldl Value.saturatingAdd c) := by
  induction vs generalizing s c ds with
  | nil =>
    cases h
    cases ds with
    | nil => exact hc
    | cons d ds => cases hds
  | cons p vs ih =>
    obtain ⟨m, v⟩ := p
    rw [ingestValues_cons] at h
    obtain ⟨⟨w, q'⟩, hstep, hrest⟩ := Except.bind_eq_ok.1 h
    rw [arrivals_cons] at hds
    by_cases hm : m = n
    · subst hm
      rw [if_pos rfl] at hds
      cases ds with
      | nil => cases hds
      | cons d ds =>
        simp only [List.map_cons, List.cons.injEq] at hds
        obtain ⟨rfl, hds⟩ := hds
        rw [List.foldl_cons]
        exact ih hrest (counterTotal_ingestValue_self hstep hc) hds
    · rw [if_neg hm] at hds
      exact ih hrest (by rw [counterTotal_ingestValue_of_ne hstep hm, hc]) hds

/-! ## Runs of calls -/

theorem ingestValues_append (s : Store) (l₁ l₂ : List (String × Value)) :
    s.ingestValues (l₁ ++ l₂) = s.ingestValues l₁ >>= fun q => q.ingestValues l₂ := by
  induction l₁ generalizing s with
  | nil => rfl
  | cons p l₁ ih =>
    obtain ⟨n, v⟩ := p
    rw [List.cons_append, ingestValues_cons, ingestValues_cons]
    cases s.ingestValue n v with
    | error e => rfl
    | ok p => exact ih p.2

theorem ingestValues_of_ingestValue {s q : Store} {n : String} {v w : Value}
    (h : s.ingestValue n v = .ok (w, q)) : s.ingestValues [(n, v)] = .ok q := by
  rw [ingestValues_cons, h]
  rfl

/-- The values of an accepted batch are the values its records bring in. -/
theorem flatMap_named_of_accepted {rs : List Record} {i : Integrity}
    {vs : List (String × Value)} (h : Accepted rs i vs) :
    rs.flatMap (fun r => named r.id r.toValue) = vs := by
  induction h with
  | nil => rfl
  | @cons r p rs vs hp _ ih =>
    obtain ⟨hn, hv, -⟩ := hp
    rw [List.flatMap_cons, ih, hv, ← hn]
    rfl

/-- A call that succeeds, other than a restore, leaves the store that merging the values it
brings in, one by one, leaves. -/
theorem ingestValues_of_run {s : Store} {op : Op} {a : Answer} (hop : ∀ rs, op ≠ .restore rs)
    (h : (op.run s).1 = .ok a) : s.ingestValues op.incoming = .ok (op.run s).2 := by
  cases op with
  | ingestOne tag name text =>
    rw [Op.run_ingestOne] at h ⊢
    cases hs : s.ingestOne tag name text with
    | error e => rw [hs] at h; cases h
    | ok p =>
      obtain ⟨v, hv, hstep⟩ := ingestOne_eq_ok.1 hs
      rw [Op.incoming, hv]
      exact ingestValues_of_ingestValue hstep
  | ingestValue name v =>
    rw [Op.run_ingestValue] at h ⊢
    cases hs : s.ingestValue name v with
    | error e => rw [hs] at h; cases h
    | ok p => exact ingestValues_of_ingestValue hs
  | ingestRecord r i =>
    rw [Op.run_ingestRecord] at h ⊢
    cases hs : s.ingestRecord r i with
    | error e => rw [hs] at h; cases h
    | ok p =>
      obtain ⟨v, hv, -, hstep⟩ := ingestRecord_eq_ok.1 hs
      rw [Op.incoming, hv]
      exact ingestValues_of_ingestValue hstep
  | ingestBatch rs i =>
    rw [Op.run_ingestBatch] at h ⊢
    cases hs : s.ingestBatch rs i with
    | error e => rw [hs] at h; cases h
    | ok p =>
      obtain ⟨vs, hvs, hq⟩ := ingestEach_eq_ok.1 (ingestBatch_eq_ok_iff.1 hs).1
      rw [Op.incoming, flatMap_named_of_accepted (batchValues_eq_ok.1 hvs)]
      exact hq
  | get tag name => rfl
  | listing => rfl
  | snapshot signer => rfl
  | restore rs => exact absurd rfl (hop rs)

/-- Runs calls one after another: the store they leave when every one succeeds, none when
one fails. -/
def runAll (s : Store) : List Op → Option Store
  | [] => some s
  | op :: ops =>
    match (op.run s).1 with
    | .ok _ => runAll (op.run s).2 ops
    | .error _ => none

theorem runAll_cons_eq_some {s q : Store} {op : Op} {ops : List Op} :
    s.runAll (op :: ops) = some q ↔ ∃ a, (op.run s).1 = .ok a ∧ (op.run s).2.runAll ops = some q := by
  rw [runAll]
  cases (op.run s).1 <;> simp

/-- A run of successful calls, none a restore, leaves the store that merging all the values
they bring in, in order, leaves. -/
theorem ingestValues_of_runAll {s q : Store} {ops : List Op}
    (hops : ∀ op ∈ ops, ∀ rs, op ≠ .restore rs) (h : s.runAll ops = some q) :
    s.ingestValues (ops.flatMap Op.incoming) = .ok q := by
  induction ops generalizing s with
  | nil =>
    cases h
    rfl
  | cons op ops ih =>
    obtain ⟨a, hok, hrest⟩ := runAll_cons_eq_some.1 h
    rw [List.flatMap_cons, ingestValues_append, ingestValues_of_run (hops op (by simp)) hok]
    exact ih (fun op' hop' => hops op' (by simp [hop'])) hrest

/-- The total a run of successful calls leaves under a name is the saturating fold of the
counter deltas that arrive under it, in the order they arrive. -/
theorem counterTotal_of_runAll {s q : Store} {ops : List Op} {n : String} {c₀ : Int64}
    {ds : List Int64} (hc : s.counterTotal n = some c₀)
    (hops : ∀ op ∈ ops, ∀ rs, op ≠ .restore rs) (h : s.runAll ops = some q)
    (hds : arrivals n (ops.flatMap Op.incoming) = ds.map .counter) :
    q.counterTotal n = some (ds.foldl Value.saturatingAdd c₀) :=
  counterTotal_ingestValues (ingestValues_of_runAll hops h) hc hds

/-- Two orders of the same calls bring the same deltas under a name, each in its own order. -/
theorem deltas_perm_of_perm {ops₁ ops₂ : List Op} {n : String} {ds₁ ds₂ : List Int64}
    (hperm : ops₁.Perm ops₂) (hd₁ : arrivals n (ops₁.flatMap Op.incoming) = ds₁.map .counter)
    (hd₂ : arrivals n (ops₂.flatMap Op.incoming) = ds₂.map .counter) : ds₁.Perm ds₂ := by
  have h := arrivals_perm n (hperm.flatMap_right Op.incoming)
  rw [hd₁, hd₂] at h
  exact (List.map_perm_map_iff fun _ _ h => Value.counter.inj h).1 h

/-- **Counter totals under reordering.** Start from a store where the name `n` is absent or
holds the counter `c₀`, and run the same calls in two orders, every call succeeding and none
a restore. Each order leaves the saturating fold of its deltas from `c₀`. When no running
total of either order leaves the 64-bit range, both leave the same total, `c₀` plus the sum
of the deltas. -/
theorem counter_total_of_serial_orders {s q₁ q₂ : Store} {ops₁ ops₂ : List Op} {n : String}
    {c₀ : Int64} {ds₁ ds₂ : List Int64} (hc : s.counterTotal n = some c₀)
    (hperm : ops₁.Perm ops₂) (hops : ∀ op ∈ ops₁, ∀ rs, op ≠ .restore rs)
    (h₁ : s.runAll ops₁ = some q₁) (h₂ : s.runAll ops₂ = some q₂)
    (hd₁ : arrivals n (ops₁.flatMap Op.incoming) = ds₁.map .counter)
    (hd₂ : arrivals n (ops₂.flatMap Op.incoming) = ds₂.map .counter) :
    q₁.counterTotal n = some (ds₁.foldl Value.saturatingAdd c₀) ∧
    q₂.counterTotal n = some (ds₂.foldl Value.saturatingAdd c₀) ∧
    (Value.SumsInRange c₀.toInt ds₁ → Value.SumsInRange c₀.toInt ds₂ →
      q₁.counterTotal n = q₂.counterTotal n ∧
      (ds₁.foldl Value.saturatingAdd c₀).toInt = c₀.toInt + (ds₁.map Int64.toInt).sum) := by
  have hops₂ : ∀ op ∈ ops₂, ∀ rs, op ≠ .restore rs := fun op hop => hops op (hperm.mem_iff.2 hop)
  have e₁ := counterTotal_of_runAll hc hops h₁ hd₁
  have e₂ := counterTotal_of_runAll hc hops₂ h₂ hd₂
  refine ⟨e₁, e₂, fun hin₁ hin₂ => ?_⟩
  have t₁ := Value.foldl_saturatingAdd_of_sumsInRange hin₁
  have t₂ := Value.foldl_saturatingAdd_of_sumsInRange hin₂
  -- the plain sums agree because the deltas of the two orders are a permutation
  have hsum : (ds₁.map Int64.toInt).sum = (ds₂.map Int64.toInt).sum :=
    ((deltas_perm_of_perm hperm hd₁ hd₂).map _).sum_eq
  have hfold : ds₁.foldl Value.saturatingAdd c₀ = ds₂.foldl Value.saturatingAdd c₀ :=
    Int64.toInt_inj.1 (by rw [t₁, t₂, hsum])
  refine ⟨?_, t₁⟩
  rw [e₁, e₂, hfold]

/-- Two orders of one text update and a batch on the empty store: the deltas `5`, `2`, `-3`
under `n`, with a delta under `m` between them, end at `4` either way. -/
theorem counter_total_two_orders :
    let one : Op := .ingestOne "counter" "n" "5"
    let batch : Op := .ingestBatch [{ id := "n", type := "counter", delta := some 2 },
      { id := "m", type := "counter", delta := some 7 },
      { id := "n", type := "counter", delta := some (-3) }] {}
    let q : Store := ⟨[("n", .counter 4), ("m", .counter 7)]⟩
    ({} : Store).runAll [one, batch] = some q ∧ ({} : Store).runAll [batch, one] = some q ∧
      Value.SumsInRange (0 : Int64).toInt [5, 2, -3] ∧
      Value.SumsInRange (0 : Int64).toInt [2, -3, 5] ∧
      q.counterTotal "n" = some ([5, 2, -3].foldl Value.saturatingAdd 0) ∧
      ([5, 2, -3].foldl Value.saturatingAdd 0).toInt =
        (0 : Int64).toInt + ([5, 2, -3].map Int64.toInt).sum := by
  intro one batch q
  have hc : ({} : Store).counterTotal "n" = some 0 := rfl
  have hperm : [one, batch].Perm [batch, one] := .swap _ _ _
  have hops : ∀ op ∈ [one, batch], ∀ rs, op ≠ .restore rs := by simp [one, batch]
  have h₁ : ({} : Store).runAll [one, batch] = some q := by decide
  have h₂ : ({} : Store).runAll [batch, one] = some q := by decide
  have hd₁ : arrivals "n" ([one, batch].flatMap Op.incoming) = [5, 2, -3].map .counter := by
    decide
  have hd₂ : arrivals "n" ([batch, one].flatMap Op.incoming) = [2, -3, 5].map .counter := by
    decide
  have hin₁ : Value.SumsInRange (0 : Int64).toInt [5, 2, -3] := by decide
  have hin₂ : Value.SumsInRange (0 : Int64).toInt [2, -3, 5] := by decide
  obtain ⟨e₁, -, hsum⟩ := counter_total_of_serial_orders hc hperm hops h₁ h₂ hd₁ hd₂
  exact ⟨h₁, h₂, hin₁, hin₂, e₁, (hsum hin₁ hin₂).2⟩

/-- Saturation makes a counter total depend on the order of its deltas. A batch of the
deltas `max, 1, -1` under a new name sums to `max` but ends one below it, since its running
total saturates at `max` first; the same deltas sent one by one as `max, -1, 1` end at
`max`. -/
theorem counter_total_depends_on_order :
    (({} : Store).runAll [.ingestBatch
        [{ id := "n", type := "counter", delta := some 9223372036854775807 },
          { id := "n", type := "counter", delta := some 1 },
          { id := "n", type := "counter", delta := some (-1) }] {}]).bind
        (·.counterTotal "n") = some 9223372036854775806 ∧
      (({} : Store).runAll [.ingestOne "counter" "n" "9223372036854775807",
        .ingestOne "counter" "n" "-1", .ingestOne "counter" "n" "1"]).bind
        (·.counterTotal "n") = some 9223372036854775807 := by
  decide

end Store

end Telemetry

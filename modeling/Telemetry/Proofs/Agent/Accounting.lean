import Mathlib
import Telemetry.Agent.Reporter
import Telemetry.Proofs.Store.Accumulate

/-
  Poll accounting across report cycles.

  The agent counts polls and records samples while report cycles send its snapshots. A
  cycle takes a snapshot, then sends its chunks one by one; polls and samples may come
  between any two of these steps, and cycles follow one another. `Agent.step` is that
  interleaving. Its sending step is `sendChunk`, the step `report` folds over the chunks, and
  `Agent.Reachable` lets the steps come in any order, the transport accepting or refusing
  each chunk as its own state decides. Beside the readings an agent carries `delivered`, an
  observer's sum of the `PollCount` deltas of every chunk the transport accepted.

  `poll_accounting`: in every reachable state the acknowledged count lies between zero and
  the poll count, `delivered` equals it, and a cycle under way has a delta equal to its
  watermark (the poll count at its snapshot) less the acknowledged count, which has not
  moved since. Once the last chunk of a cycle is accepted, `delivered` is the watermark.

  The argument: only the last chunk carries `PollCount` (`pollDeltaSum_chunksOf`), and
  accepting it moves the acknowledged count from where the snapshot found it to the
  watermark, that is by the delta (`acknowledge_reported`). Polls counted after the snapshot
  stay above the watermark and go with the next snapshot.
-/

namespace Telemetry

/-! ## Chunks -/

section Chunks

variable {α : Type} {n : Nat}

theorem chunksOf_go_congr (hn : 0 < n) :
    ∀ (f g : Nat) (xs : List α), xs.length < f → xs.length < g →
      chunksOf.go n xs f = chunksOf.go n xs g
  | 0, _, _, hf, _ => absurd hf (Nat.not_lt_zero _)
  | _, 0, _, _, hg => absurd hg (Nat.not_lt_zero _)
  | f + 1, g + 1, xs, hf, hg => by
    simp only [chunksOf.go]
    split
    · rfl
    · rename_i hne
      have hpos : 0 < xs.length := List.length_pos_iff.2 (by simpa using hne)
      have hdrop : (xs.drop n).length < xs.length := by
        rw [List.length_drop]
        omega
      rw [chunksOf_go_congr hn f g (xs.drop n) (by omega) (by omega)]

/-- Chunking takes `n` elements, then chunks the rest. -/
theorem chunksOf_eq (hn : 0 < n) (xs : List α) :
    chunksOf n xs = if xs.isEmpty then [] else xs.take n :: chunksOf n (xs.drop n) := by
  conv_lhs => rw [chunksOf, chunksOf.go]
  split
  · rfl
  · rename_i hne
    have hpos : 0 < xs.length := List.length_pos_iff.2 (by simpa using hne)
    rw [chunksOf, chunksOf_go_congr hn xs.length ((xs.drop n).length + 1) (xs.drop n)
      (by rw [List.length_drop]; omega) (by omega)]

theorem chunksOf_nil (hn : 0 < n) : chunksOf n ([] : List α) = [] := by
  rw [chunksOf_eq hn]
  rfl

theorem chunksOf_ne_nil (hn : 0 < n) {xs : List α} (hxs : xs ≠ []) : chunksOf n xs ≠ [] := by
  rw [chunksOf_eq hn, if_neg (by simpa using hxs)]
  exact List.cons_ne_nil _ _

/-- A list of at most `n` elements is one chunk. -/
theorem chunksOf_of_length_le (hn : 0 < n) {xs : List α} (hxs : xs ≠ []) (hle : xs.length ≤ n) :
    chunksOf n xs = [xs] := by
  rw [chunksOf_eq hn, if_neg (by simpa using hxs), List.take_of_length_le hle,
    List.drop_eq_nil_of_le hle, chunksOf_nil hn]

/-- The chunks hold the list, in order. -/
theorem flatten_chunksOf (hn : 0 < n) (xs : List α) : (chunksOf n xs).flatten = xs := by
  -- on the length: each chunk but the last takes `n` elements
  induction hm : xs.length using Nat.strong_induction_on generalizing xs with
  | _ m ih =>
    rw [chunksOf_eq hn]
    split
    · rename_i hempty
      exact (List.isEmpty_iff.1 hempty).symm
    · rename_i hne
      have hpos : 0 < xs.length := List.length_pos_iff.2 (by simpa using hne)
      rw [List.flatten_cons, ih (xs.drop n).length (by rw [List.length_drop]; omega) _ rfl,
        List.take_append_drop]

end Chunks

/-! ## The polls a chunk reports -/

namespace Record

/-- The polls a record reports: the delta of a `PollCount` counter, none for any other
record. -/
def pollDelta (r : Record) : Int :=
  if r.id = Snapshot.pollCount ∧ r.type = Kind.counter.name then (r.delta.map Int64.toInt).getD 0
  else 0

end Record

/-- The polls a chunk reports. -/
def pollDeltaSum (chunk : List Record) : Int := (chunk.map Record.pollDelta).sum

theorem pollDeltaSum_append (a b : List Record) :
    pollDeltaSum (a ++ b) = pollDeltaSum a + pollDeltaSum b := by
  simp [pollDeltaSum]

theorem pollDeltaSum_eq_zero {rs : List Record} (h : ∀ r ∈ rs, r.pollDelta = 0) :
    pollDeltaSum rs = 0 := by
  unfold pollDeltaSum
  apply List.sum_eq_zero
  simpa using h

/-- **Only the last chunk reports polls.** When only the last record reports any, a chunk
reports what that record does if it is the last chunk, and nothing otherwise. -/
theorem pollDeltaSum_chunksOf {n : Nat} (hn : 0 < n) (p : Record) :
    ∀ (ys : List Record), (∀ y ∈ ys, y.pollDelta = 0) → ∀ (k : Nat) (c : List Record)
      (cs : List (List Record)), (chunksOf n (ys ++ [p])).drop k = c :: cs →
        pollDeltaSum c = if cs = [] then p.pollDelta else 0 := by
  intro ys
  -- on the number of records before `p`: each chunk but the last takes `n` of them
  induction hm : ys.length using Nat.strong_induction_on generalizing ys with
  | _ m ih =>
    intro hys k c cs h
    rw [chunksOf_eq hn, if_neg (by simp)] at h
    by_cases hshort : ys.length < n
    · -- one chunk holds everything
      have htake : (ys ++ [p]).take n = ys ++ [p] := List.take_of_length_le (by simp; omega)
      have hdrop : (ys ++ [p]).drop n = [] := List.drop_eq_nil_of_le (by simp; omega)
      rw [htake, hdrop, chunksOf_nil hn] at h
      cases k with
      | zero =>
        simp only [List.drop_zero, List.cons.injEq] at h
        obtain ⟨rfl, rfl⟩ := h
        rw [pollDeltaSum_append, pollDeltaSum_eq_zero hys]
        simp [pollDeltaSum]
      | succ k => simp at h
    · have hle : n ≤ ys.length := by omega
      rw [List.take_append_of_le_length hle, List.drop_append_of_le_length hle] at h
      cases k with
      | zero =>
        simp only [List.drop_zero, List.cons.injEq] at h
        obtain ⟨rfl, rfl⟩ := h
        rw [if_neg (chunksOf_ne_nil hn (by simp))]
        exact pollDeltaSum_eq_zero fun r hr => hys r (List.mem_of_mem_take hr)
      | succ k =>
        rw [List.drop_succ_cons] at h
        exact ih (ys.drop n).length (by rw [List.length_drop]; omega) (ys.drop n) rfl
          (fun r hr => hys r (List.mem_of_mem_drop hr)) k c cs h

namespace Snapshot

theorem pollDelta_gauge (signer : Signer) (name : String) (x : Binary64) :
    ((Value.gauge x).toRecord name signer).pollDelta = 0 := by
  simp [Value.toRecord, Value.toRecordWith, Record.pollDelta, Kind.name]

theorem pollDelta_pollCount (signer : Signer) (d : Int64) :
    ((Value.counter d).toRecord pollCount signer).pollDelta = d.toInt := by
  simp [Value.toRecord, Value.toRecordWith, Record.pollDelta, Kind.name]

/-- A snapshot's chunks: the last reports the snapshot's delta, the others nothing. -/
theorem pollDeltaSum_chunk (s : Snapshot) (signer : Signer) {k : Nat} {c : List Record}
    {cs : List (List Record)} (h : (chunksOf chunkSize (s.records signer)).drop k = c :: cs) :
    pollDeltaSum c = if cs = [] then s.pollDelta.toInt else 0 := by
  rw [← pollDelta_pollCount signer]
  refine pollDeltaSum_chunksOf (by decide) _ _ ?_ k c cs h
  intro r hr
  obtain ⟨⟨name, x⟩, -, rfl⟩ := List.mem_map.1 hr
  exact pollDelta_gauge signer name x

end Snapshot

/-! ## Readings -/

namespace Readings

@[simp] theorem countPoll_reported (r : Readings) : r.countPoll.reported = r.reported := rfl

@[simp] theorem recordGauges_polls (r : Readings) (ss : List (String × Binary64)) :
    (r.recordGauges ss).polls = r.polls := rfl

@[simp] theorem recordGauges_reported (r : Readings) (ss : List (String × Binary64)) :
    (r.recordGauges ss).reported = r.reported := rfl

@[simp] theorem acknowledge_polls (r : Readings) (s : Snapshot) :
    (r.acknowledge s).polls = r.polls := rfl

@[simp] theorem snapshot_watermark (r : Readings) : r.snapshot.watermark = r.polls := rfl

/-- A poll never lowers the count; at the top it saturates. -/
theorem polls_le_countPoll {r : Readings} (h : 0 ≤ r.polls.toInt) :
    r.polls.toInt ≤ r.countPoll.polls.toInt := by
  have htop := Int64.toInt_lt r.polls
  simp only [countPoll, Value.toInt_saturatingAdd, Value.counterMin_eq, Value.counterMax_eq,
    Int64.toInt_one]
  omega

/-- A snapshot's delta is the polls not acknowledged, as numbers. -/
theorem snapshot_pollDelta {r : Readings} (h0 : 0 ≤ r.reported.toInt)
    (hle : r.reported.toInt ≤ r.polls.toInt) :
    r.snapshot.pollDelta.toInt = r.polls.toInt - r.reported.toInt :=
  Int64.toInt_sub_of_le r.polls r.reported (Int64.le_iff_toInt_le.2 (by simpa using h0))
    (Int64.le_iff_toInt_le.2 hle)

/-- Acknowledging a snapshot at or above the acknowledged count moves the count to its
watermark. -/
theorem acknowledge_reported {r : Readings} {s : Snapshot}
    (h : r.reported.toInt ≤ s.watermark.toInt) : (r.acknowledge s).reported = s.watermark := by
  simp only [acknowledge]
  split
  · rfl
  · rename_i hlt
    rw [Int64.lt_iff_toInt_lt] at hlt
    exact Int64.toInt_inj.1 (by omega)

end Readings

/-! ## Sending a chunk -/

section Send

variable {σ : Type} (snap : Snapshot) (count : Nat) (key : Option Rsa.PublicKey)
  (deliver : σ → Envelope → Bool × σ)

/-- A chunk fails, leaving the readings alone, or is accepted, and then acknowledges the
snapshot when it is the last. -/
theorem sendChunk_cases (failed : Nat) (r : Readings) (st : σ) (chunk : List Record) (i : Nat) :
    let out := sendChunk snap count key deliver (failed, r, st) (chunk, i)
    (out.1 = failed + 1 ∧ out.2.1 = r) ∨
      (out.1 = failed ∧ out.2.1 = if i + 1 = count then r.acknowledge snap else r) := by
  simp only [sendChunk]
  split
  · exact .inl ⟨rfl, rfl⟩
  · rename_i env _
    cases (deliver st env).1
    · exact .inl ⟨rfl, rfl⟩
    · refine .inr ⟨rfl, ?_⟩
      simp only [if_true, beq_iff_eq]

/-- A report folds `sendChunk` over the chunks of its snapshot, with their indices, from no
failure; its summary counts the chunks and the records. -/
theorem report_eq (r : Readings) (signer : Signer) (st : σ) :
    let chunks := chunksOf chunkSize (r.snapshot.records signer)
    let out := chunks.zipIdx.foldl (sendChunk r.snapshot chunks.length key deliver) (0, r, st)
    report r signer key deliver st =
      (⟨chunks.length, out.1, (r.snapshot.records signer).length⟩, out.2) := rfl

end Send

/-! ## The agent -/

/-- A report cycle under way: its snapshot, the number of its chunks, the chunks not yet
sent with their indices, and how many chunks failed so far. -/
structure Cycle where
  snap : Snapshot
  count : Nat
  pending : List (List Record × Nat)
  failed : Nat

/-- The agent as the sampling loops and the report cycles share it, with the transport's
state, the cycle under way, and the `PollCount` deltas of every accepted chunk. -/
structure Agent (σ : Type) where
  readings : Readings
  transport : σ
  cycle : Option Cycle
  delivered : Int

/-- What can happen next: a poll, samples, the start of a report cycle, or the sending of
its next chunk. -/
inductive Event where
  | poll
  | sample (samples : List (String × Binary64))
  | start
  | send

namespace Agent

variable {σ : Type} (signer : Signer) (key : Option Rsa.PublicKey)
  (deliver : σ → Envelope → Bool × σ)

/-- The cycle of a snapshot: all its chunks pending. -/
def begin (snap : Snapshot) : Cycle :=
  let chunks := chunksOf chunkSize (snap.records signer)
  ⟨snap, chunks.length, chunks.zipIdx, 0⟩

@[simp] theorem begin_snap (snap : Snapshot) : (begin signer snap).snap = snap := rfl

/-- One step of the agent. A cycle starts only when none is under way, and ends with its
last chunk. -/
def step (a : Agent σ) : Event → Agent σ
  | .poll => { a with readings := a.readings.countPoll }
  | .sample samples => { a with readings := a.readings.recordGauges samples }
  | .start =>
    match a.cycle with
    | some _ => a
    | none => { a with cycle := some (begin signer a.readings.snapshot) }
  | .send =>
    match a.cycle with
    | none => a
    | some c =>
      match c.pending with
      | [] => { a with cycle := none }
      | (chunk, i) :: rest =>
        let out :=
          sendChunk c.snap c.count key deliver (c.failed, a.readings, a.transport) (chunk, i)
        { readings := out.2.1, transport := out.2.2,
          cycle := if rest = [] then none else some { c with pending := rest, failed := out.1 },
          delivered := a.delivered + if out.1 = c.failed then pollDeltaSum chunk else 0 }

/-- Sending every pending chunk of a cycle, with nothing in between, folds `sendChunk` over
them and ends the cycle. -/
theorem send_all {c : Cycle} (ps : List (List Record × Nat)) (a : Agent σ) (failed : Nat)
    (hne : ps ≠ []) (hc : a.cycle = some { c with pending := ps, failed }) :
    let out := ps.foldl (sendChunk c.snap c.count key deliver) (failed, a.readings, a.transport)
    let b := (List.replicate ps.length Event.send).foldl (step signer key deliver) a
    b.readings = out.2.1 ∧ b.transport = out.2.2 ∧ b.cycle = none := by
  -- on the pending chunks: each send takes the next one and keeps the cycle for the rest
  induction ps generalizing a failed with
  | nil => exact absurd rfl hne
  | cons p rest ih =>
    obtain ⟨chunk, i⟩ := p
    rw [List.length_cons, List.replicate_succ, List.foldl_cons, List.foldl_cons]
    by_cases hrest : rest = []
    · subst hrest
      simp [step, hc]
    · let out := sendChunk c.snap c.count key deliver (failed, a.readings, a.transport) (chunk, i)
      have hnext : (a.step signer key deliver .send).cycle =
          some { c with pending := rest, failed := out.1 } := by
        simp [step, hc, hrest, out]
      have h := ih (a.step signer key deliver .send) out.1 hrest hnext
      simp only [step, hc] at h ⊢
      exact h

/-- **A report is a run.** Starting a cycle on idle readings and sending its chunks with
nothing in between leaves the readings and the transport as `report` does, and no cycle. -/
theorem run_report (r : Readings) (st : σ) (d : Int) :
    let n := (chunksOf chunkSize (r.snapshot.records signer)).length
    let b :=
      (Event.start :: List.replicate n .send).foldl (step signer key deliver) ⟨r, st, none, d⟩
    b.readings = (report r signer key deliver st).2.1 ∧
      b.transport = (report r signer key deliver st).2.2 ∧ b.cycle = none := by
  have hchunks : chunksOf chunkSize (r.snapshot.records signer) ≠ [] :=
    chunksOf_ne_nil (by decide) (by simp [Snapshot.records])
  have hps : (chunksOf chunkSize (r.snapshot.records signer)).zipIdx ≠ [] := by
    simpa using hchunks
  have h := send_all signer key deliver (c := begin signer r.snapshot) _
    ((⟨r, st, none, d⟩ : Agent σ).step signer key deliver .start) 0 hps (by simp [step, begin])
  simp only [List.length_zipIdx] at h
  simpa [report_eq, begin, step] using h

/-- The states a run reaches from fresh readings and any transport state. -/
inductive Reachable : Agent σ → Prop
  | init (st : σ) : Reachable ⟨{}, st, none, 0⟩
  | step {a : Agent σ} (e : Event) : Reachable a → Reachable (a.step signer key deliver e)

/-- A cycle under way over the readings `r`: its pending chunks are the last ones of its
snapshot, and its delta is its watermark less the acknowledged count, which lies at or
below the watermark, itself at or below the poll count. -/
structure Underway (c : Cycle) (r : Readings) : Prop where
  pending : ∃ k, c.pending = ((chunksOf chunkSize (c.snap.records signer)).drop k).zipIdx k
  count : c.count = (chunksOf chunkSize (c.snap.records signer)).length
  delta : c.snap.pollDelta.toInt = c.snap.watermark.toInt - r.reported.toInt
  reported_le : r.reported.toInt ≤ c.snap.watermark.toInt
  watermark_le : c.snap.watermark.toInt ≤ r.polls.toInt

/-- What every run keeps: the acknowledged count lies between zero and the poll count, the
accepted deltas sum to it, and a cycle under way is as `Underway` says. -/
structure Accounted (a : Agent σ) : Prop where
  reported_nonneg : 0 ≤ a.readings.reported.toInt
  reported_le : a.readings.reported.toInt ≤ a.readings.polls.toInt
  delivered_eq : a.delivered = a.readings.reported.toInt
  underway : ∀ c ∈ a.cycle, Underway signer c a.readings

theorem accounted_init (st : σ) : Accounted signer (⟨{}, st, none, 0⟩ : Agent σ) where
  reported_nonneg := by simp
  reported_le := by simp
  delivered_eq := by simp
  underway _ h := by cases h

variable {signer}

theorem Underway.countPoll {c : Cycle} {r : Readings} (h : Underway signer c r)
    (hp : 0 ≤ r.polls.toInt) : Underway signer c r.countPoll where
  pending := h.pending
  count := h.count
  delta := h.delta
  reported_le := h.reported_le
  watermark_le := h.watermark_le.trans (Readings.polls_le_countPoll hp)

theorem Accounted.poll {a : Agent σ} (h : Accounted signer a) :
    Accounted signer (a.step signer key deliver .poll) := by
  have hp : 0 ≤ a.readings.polls.toInt := h.reported_nonneg.trans h.reported_le
  exact {
    reported_nonneg := h.reported_nonneg
    reported_le := h.reported_le.trans (Readings.polls_le_countPoll hp)
    delivered_eq := h.delivered_eq
    underway := fun c hc => (h.underway c hc).countPoll hp }

theorem Accounted.sample {a : Agent σ} (h : Accounted signer a) (ss : List (String × Binary64)) :
    Accounted signer (a.step signer key deliver (.sample ss)) where
  reported_nonneg := h.reported_nonneg
  reported_le := h.reported_le
  delivered_eq := h.delivered_eq
  underway c hc :=
    let hu := h.underway c hc
    ⟨hu.pending, hu.count, hu.delta, hu.reported_le, hu.watermark_le⟩

/-- A cycle starts with the snapshot's delta equal to the polls not acknowledged. -/
theorem underway_begin {r : Readings} (h0 : 0 ≤ r.reported.toInt)
    (hle : r.reported.toInt ≤ r.polls.toInt) : Underway signer (begin signer r.snapshot) r where
  pending := ⟨0, by simp [begin]⟩
  count := rfl
  delta := by simpa using Readings.snapshot_pollDelta h0 hle
  reported_le := by simpa using hle
  watermark_le := by simp

theorem Accounted.start {a : Agent σ} (h : Accounted signer a) :
    Accounted signer (a.step signer key deliver .start) := by
  simp only [Agent.step]
  split
  · exact h
  · exact { h with
      underway := fun c hc => by
        cases hc
        exact underway_begin h.reported_nonneg h.reported_le }

/-- The cycle after its chunk of index `i` was sent, with `cs` the chunks after it. -/
theorem Underway.next {c : Cycle} {r : Readings} (h : Underway signer c r) {i : Nat}
    {chunk : List Record} {cs : List (List Record)}
    (hdrop : (chunksOf chunkSize (c.snap.records signer)).drop i = chunk :: cs) (f : Nat) :
    Underway signer { c with pending := cs.zipIdx (i + 1), failed := f } r where
  pending := ⟨i + 1, by rw [← List.tail_drop, hdrop, List.tail_cons]⟩
  count := h.count
  delta := h.delta
  reported_le := h.reported_le
  watermark_le := h.watermark_le

/-- The chunk a cycle under way sends next is the `i`-th of its snapshot, followed by `cs`;
it is the last one exactly when `cs` is empty. -/
theorem Underway.head {c : Cycle} {r : Readings} (h : Underway signer c r) {i : Nat}
    {chunk : List Record} {rest : List (List Record × Nat)} (hp : c.pending = (chunk, i) :: rest) :
    ∃ cs, (chunksOf chunkSize (c.snap.records signer)).drop i = chunk :: cs ∧
      rest = cs.zipIdx (i + 1) ∧ (i + 1 = c.count ↔ cs = []) := by
  obtain ⟨k, hk⟩ := h.pending
  rw [hp] at hk
  cases hd : (chunksOf chunkSize (c.snap.records signer)).drop k with
  | nil => simp [hd] at hk
  | cons c' cs =>
    simp only [hd, List.zipIdx_cons, List.cons.injEq, Prod.mk.injEq] at hk
    obtain ⟨⟨rfl, rfl⟩, rfl⟩ := hk
    have hlen : (chunksOf chunkSize (c.snap.records signer)).length - i = cs.length + 1 := by
      rw [← List.length_drop, hd, List.length_cons]
    refine ⟨cs, hd, rfl, ?_⟩
    rw [h.count, ← List.length_eq_zero_iff]
    omega

/-- Sending a chunk of a cycle under way: a refused chunk changes nothing of the count, an
accepted chunk that is not the last reports nothing, and the last one, accepted, moves the
acknowledged count to the watermark by exactly the delta it reports. -/
theorem Accounted.send {a : Agent σ} (h : Accounted signer a) :
    Accounted signer (a.step signer key deliver .send) := by
  simp only [Agent.step]
  split
  · exact h
  · rename_i c hc
    have hu := h.underway c (by simp [hc])
    split
    · exact { h with underway := fun _ h' => by cases h' }
    · rename_i chunk i rest hpend
      obtain ⟨cs, hdrop, rfl, hlast⟩ := hu.head hpend
      have hpolls := c.snap.pollDeltaSum_chunk signer hdrop
      have hcases := sendChunk_cases c.snap c.count key deliver c.failed a.readings a.transport
        chunk i
      generalize sendChunk c.snap c.count key deliver (c.failed, a.readings, a.transport)
        (chunk, i) = out at hcases ⊢
      obtain ⟨f, r, st⟩ := out
      dsimp only at hcases ⊢
      rcases hcases with ⟨rfl, rfl⟩ | ⟨rfl, rfl⟩
      · -- refused: only the failures move
        refine { h with delivered_eq := by simpa using h.delivered_eq, underway := ?_ }
        intro c' hc'
        split at hc'
        · cases hc'
        · cases hc'
          exact hu.next hdrop _
      · by_cases hl : cs = []
        · -- the last chunk: the count moves to the watermark, by the delta reported
          subst hl
          have hack := Readings.acknowledge_reported (s := c.snap) hu.reported_le
          rw [if_pos rfl] at hpolls
          rw [if_pos (hlast.2 rfl)]
          refine ⟨?_, ?_, ?_, ?_⟩ <;> dsimp only
          · rw [hack]
            exact h.reported_nonneg.trans hu.reported_le
          · rw [hack, Readings.acknowledge_polls]
            exact hu.watermark_le
          · rw [if_pos rfl, hpolls, hack, h.delivered_eq, hu.delta]
            omega
          · intro c' hc'
            simp at hc'
        · -- a chunk before the last reports nothing
          rw [if_neg hl] at hpolls
          rw [if_neg (mt hlast.1 hl)]
          refine ⟨h.reported_nonneg, h.reported_le, ?_, ?_⟩ <;> dsimp only
          · rw [if_pos rfl, hpolls, h.delivered_eq, Int.add_zero]
          · intro c' hc'
            rw [if_neg (by simpa using hl), Option.mem_def, Option.some.injEq] at hc'
            subst hc'
            exact hu.next hdrop _

theorem Accounted.step {a : Agent σ} (h : Accounted signer a) (e : Event) :
    Accounted signer (a.step signer key deliver e) := by
  cases e with
  | poll => exact h.poll key deliver
  | sample ss => exact h.sample key deliver ss
  | start => exact h.start key deliver
  | send => exact h.send key deliver

theorem Reachable.accounted {a : Agent σ} (h : Reachable signer key deliver a) :
    Accounted signer a := by
  induction h with
  | init st => exact accounted_init signer st
  | step e _ ih => exact ih.step key deliver e

/-- An accepted chunk: it seals, and the transport takes it. -/
theorem sendChunk_of_accepted {snap : Snapshot} {count : Nat} {failed : Nat} {r : Readings}
    {st : σ} {chunk : List Record} {i : Nat} {env : Envelope}
    (hseal : Envelope.sealBatch chunk key = .ok env) (hok : (deliver st env).1 = true) :
    sendChunk snap count key deliver (failed, r, st) (chunk, i) =
      (failed, if i + 1 = count then r.acknowledge snap else r, (deliver st env).2) := by
  simp only [sendChunk, hseal, hok, if_true, beq_iff_eq]

/-- Once the last chunk of a cycle is accepted, the accepted deltas sum to the poll count of
the cycle's snapshot. -/
theorem Accounted.delivered_of_last {a : Agent σ} (h : Accounted signer a) {c : Cycle}
    (hc : a.cycle = some c) {chunk : List Record} {i : Nat} (hp : c.pending = [(chunk, i)])
    {env : Envelope} (hseal : Envelope.sealBatch chunk key = .ok env)
    (hok : (deliver a.transport env).1 = true) :
    (a.step signer key deliver .send).delivered = c.snap.watermark.toInt := by
  have hu := h.underway c (by simp [hc])
  obtain ⟨cs, hdrop, hrest, hlast⟩ := hu.head hp
  obtain rfl : cs = [] := by
    cases cs with
    | nil => rfl
    | cons _ _ => simp [List.zipIdx_cons] at hrest
  have hpolls := c.snap.pollDeltaSum_chunk signer hdrop
  simp only [Agent.step, hc, hp, sendChunk_of_accepted key deliver hseal hok, if_true, hpolls]
  rw [h.delivered_eq, hu.delta]
  omega

end Agent

/-- **Poll accounting.** In every run of the agent, whatever the order of polls, samples and
the steps of report cycles that do not overlap, and whatever the transport accepts: the
acknowledged count lies between zero and the poll count; the `PollCount` deltas of the
accepted chunks sum to it; a cycle under way has a delta equal to its watermark (the poll
count at its snapshot) less the acknowledged count, which has not moved since, and polls
counted after the snapshot lie above the watermark. When the last chunk of a cycle is
accepted, the accepted deltas come to the cycle's watermark. -/
theorem poll_accounting {σ : Type} {signer : Signer} {key : Option Rsa.PublicKey}
    {deliver : σ → Envelope → Bool × σ} {a : Agent σ}
    (h : Agent.Reachable signer key deliver a) :
    Agent.Accounted signer a ∧
      ∀ c ∈ a.cycle, ∀ (chunk : List Record) (i : Nat) (env : Envelope),
        c.pending = [(chunk, i)] → Envelope.sealBatch chunk key = .ok env →
          (deliver a.transport env).1 = true →
            (a.step signer key deliver .send).delivered = c.snap.watermark.toInt :=
  ⟨h.accounted, fun _ hc _ _ _ hp hseal hok =>
    h.accounted.delivered_of_last key deliver hc hp hseal hok⟩

/-- The accounting after a poll and the start of a cycle, over a transport that takes
every chunk. -/
theorem poll_accounting_after_start :
    let deliver := fun (_ : Unit) (_ : Envelope) => (true, ())
    let a :=
      ((⟨{}, (), none, 0⟩ : Agent Unit).step {} none deliver .poll).step {} none deliver .start
    Agent.Reachable {} none deliver a ∧
      (Agent.Accounted {} a ∧
        ∀ c ∈ a.cycle, ∀ (chunk : List Record) (i : Nat) (env : Envelope),
          c.pending = [(chunk, i)] → Envelope.sealBatch chunk none = .ok env →
            (deliver a.transport env).1 = true →
              (a.step {} none deliver .send).delivered = c.snap.watermark.toInt) :=
  have h := ((Agent.Reachable.init ()).step .poll).step .start
  ⟨h, poll_accounting h⟩

end Telemetry

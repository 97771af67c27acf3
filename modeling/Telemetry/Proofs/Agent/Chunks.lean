import Mathlib
import Telemetry.Proofs.Agent.Delivery

/-
  What a report sends, chunk by chunk.

  `chunksOf` cuts a list into runs of `n`: the chunk of index `i` holds the elements from
  `n i` on (`getElem?_chunksOf`), every chunk but the last is full, there are `⌈m / n⌉` of
  them, and the last ends with the last element. The readings keep, in strictly ascending
  order of name, each name's last finite sample (`recordGauges_spec`), and no step of the
  agent but a sample moves them (`foldl_step_gauge?`).

  To see what a transport is handed, `logged` wraps it and keeps each envelope with its
  answer. Wrapping changes nothing else (`foldl_sendChunk_logged`): every chunk that seals is
  handed over once and in order, and the failed chunks are those that did not seal and
  those refused (`report_logged`). Each envelope opens to its chunk with every double as its
  wire text reads (`report_logged_opens_as`), so to the chunk itself when the gauges read
  back (`report_logged_opens`); a gauge whose shortest text reads as another double opens as
  that double (`report_opens_gauge_misread`).
-/

namespace Telemetry

/-! ## Chunk layout -/

section Layout

variable {α : Type} {n : Nat}

/-- Dropping whole chunks drops their elements. -/
theorem drop_chunksOf (hn : 0 < n) : ∀ (i : Nat) (xs : List α),
    (chunksOf n xs).drop i = chunksOf n (xs.drop (n * i))
  | 0, xs => by simp
  | i + 1, xs => by
    rw [chunksOf_eq hn xs]
    split
    · rename_i h
      simp [List.isEmpty_iff.1 h, chunksOf_nil hn]
    · rw [List.drop_succ_cons, drop_chunksOf hn i, List.drop_drop, Nat.mul_succ, Nat.add_comm]

/-- A list of `m` elements makes `⌈m / n⌉` chunks. -/
theorem length_chunksOf (hn : 0 < n) (xs : List α) :
    (chunksOf n xs).length = (xs.length + n - 1) / n := by
  -- on the length: each chunk but the last takes `n` elements
  induction hm : xs.length using Nat.strong_induction_on generalizing xs with
  | _ m ih =>
    rw [chunksOf_eq hn]
    split
    · rename_i h
      rw [List.isEmpty_iff.1 h] at hm
      subst hm
      simp only [List.length_nil, Nat.zero_add]
      exact (Nat.div_eq_of_lt (by omega)).symm
    · rename_i h
      have hpos : 0 < m := by rw [← hm]; exact List.length_pos_iff.2 (by simpa using h)
      rw [List.length_cons, ih (xs.drop n).length (by rw [List.length_drop]; omega) _ rfl,
        List.length_drop, hm]
      by_cases hlt : m ≤ n
      · rw [Nat.sub_eq_zero_of_le hlt, Nat.zero_add, Nat.div_eq_of_lt (by omega)]
        exact (Nat.div_eq_of_lt_le (by omega) (by omega)).symm
      · rw [show m - n + n - 1 = m - 1 by omega, show m + n - 1 = m - 1 + n by omega,
          Nat.add_div_right _ hn]

/-- The chunk of index `i` holds the elements from `n * i` on, `n` of them or what is left. -/
theorem getElem?_chunksOf (hn : 0 < n) (xs : List α) {i : Nat}
    (hi : i < (chunksOf n xs).length) :
    (chunksOf n xs)[i]? = some ((xs.drop (n * i)).take n) := by
  have hne : xs.drop (n * i) ≠ [] := by
    intro h
    have := congrArg List.length (drop_chunksOf hn i xs)
    rw [h, chunksOf_nil hn, List.length_drop, List.length_nil] at this
    omega
  rw [← List.head?_drop, drop_chunksOf hn, chunksOf_eq hn, if_neg (by simpa using hne)]
  rfl

/-- Every chunk but the last is full. -/
theorem length_chunk_of_lt (hn : 0 < n) (xs : List α) {i : Nat}
    (hi : i + 1 < (chunksOf n xs).length) : ((xs.drop (n * i)).take n).length = n := by
  rw [length_chunksOf hn] at hi
  have h := (Nat.le_div_iff_mul_le hn).1 hi
  have e : (i + 1 + 1) * n = n * i + 2 * n := by ring
  rw [e] at h
  rw [List.length_take, List.length_drop]
  omega

/-- The last chunk ends with the last element. -/
theorem getLast?_chunksOf (hn : 0 < n) (xs : List α) :
    (chunksOf n xs).getLast?.bind List.getLast? = xs.getLast? := by
  rcases List.eq_nil_or_concat xs with rfl | ⟨ys, y, rfl⟩
  · simp [chunksOf_nil hn]
  · set xs := ys.concat y
    have hlen : xs.length = ys.length + 1 := by simp [xs]
    set k := (chunksOf n xs).length with hk
    have hk' : k = (xs.length + n - 1) / n := length_chunksOf hn xs
    have hpos : 0 < k := by
      rw [hk']
      exact Nat.div_pos (by omega) hn
    -- the last chunk starts before the end, and reaches it
    have hstart : n * (k - 1) < xs.length := by
      have := (Nat.div_mul_le_self (xs.length + n - 1) n)
      rw [← hk', Nat.mul_comm] at this
      have e : n * (k - 1) + n = n * k := by
        rw [← Nat.mul_succ, Nat.succ_eq_add_one, Nat.sub_add_cancel hpos]
      omega
    have hend : xs.length ≤ n * (k - 1) + n := by
      have h := Nat.div_add_mod (xs.length + n - 1) n
      have hmod := Nat.mod_lt (xs.length + n - 1) hn
      rw [← hk'] at h
      have e : n * (k - 1) + n = n * k := by
        rw [← Nat.mul_succ, Nat.succ_eq_add_one, Nat.sub_add_cancel hpos]
      omega
    rw [List.getLast?_eq_getElem?, ← hk, getElem?_chunksOf hn xs (by omega), Option.bind_some,
      List.take_of_length_le (by rw [List.length_drop]; omega), List.getLast?_drop,
      if_neg (by omega)]

end Layout

/-! ## The latest readings -/

namespace Readings

theorem lookup_cons_ite {β : Type} {b : β} {l : List (String × β)} {a k : String} :
    ((k, b) :: l).lookup a = if a = k then some b else l.lookup a := by
  by_cases h : a = k
  · simp [h]
  · simp [List.lookup_cons, h, beq_eq_false_iff_ne.2 h]

theorem lookup_insertSorted (n : String) (x : Binary64) (m : String) :
    ∀ l : List (String × Binary64),
      (insertSorted n x l).lookup m = if m = n then some x else l.lookup m
  | [] => by
    by_cases h : m = n <;> simp [insertSorted, lookup_cons_ite, h]
  | (k, y) :: rest => by
    unfold insertSorted
    by_cases hk : n = k
    · subst hk
      by_cases h : m = n <;> simp [lookup_cons_ite, h]
    · by_cases hlt : n < k
      · by_cases h : m = n <;> simp [lookup_cons_ite, h, hk, hlt]
      · have ih := lookup_insertSorted n x m rest
        by_cases h : m = k
        · subst h
          simp [hk, hlt, Ne.symm hk]
        · simp [lookup_cons_ite, hk, hlt, h, ih]

theorem mem_insertSorted {n : String} {x : Binary64} {m : String} :
    ∀ {l : List (String × Binary64)}, m ∈ (insertSorted n x l).map Prod.fst →
      m = n ∨ m ∈ l.map Prod.fst
  | [], h => by simpa [insertSorted] using h
  | (k, y) :: rest, h => by
    unfold insertSorted at h
    split_ifs at h with hk hlt
    · rw [beq_iff_eq] at hk
      subst hk
      simpa using h
    · simpa [or_assoc] using h
    · simp only [List.map_cons, List.mem_cons] at h
      rcases h with rfl | h
      · exact .inr (by simp)
      · rcases mem_insertSorted h with h | h
        · exact .inl h
        · exact .inr (by simp [h])

/-- Inserting keeps the names in strictly ascending order. -/
theorem sorted_insertSorted (n : String) (x : Binary64) :
    ∀ l : List (String × Binary64), (l.map Prod.fst).Pairwise (· < ·) →
      ((insertSorted n x l).map Prod.fst).Pairwise (· < ·)
  | [], _ => by simp [insertSorted]
  | (k, y) :: rest, h => by
    rw [List.map_cons, List.pairwise_cons] at h
    unfold insertSorted
    split_ifs with hk hlt
    · rw [beq_iff_eq] at hk
      subst hk
      simpa using h
    · -- the new name goes first, below `k` and so below every later name
      simp only [List.map_cons, List.pairwise_cons, List.mem_cons]
      refine ⟨?_, h.1, h.2⟩
      rintro m (rfl | hm)
      · exact hlt
      · exact lt_trans hlt (h.1 m hm)
    · have hgt : k < n := by
        rcases lt_trichotomy n k with h' | h' | h'
        · exact absurd h' hlt
        · exact absurd (beq_iff_eq.2 h') hk
        · exact h'
      simp only [List.map_cons, List.pairwise_cons]
      refine ⟨fun m hm => ?_, sorted_insertSorted n x rest h.2⟩
      rcases mem_insertSorted hm with rfl | hm
      · exact hgt
      · exact h.1 m hm

theorem recordGauges_single (r : Readings) (s : String × Binary64) :
    (r.recordGauges [s]).gauges =
      if s.2.isFinite then insertSorted s.1 s.2 r.gauges else r.gauges := rfl

theorem recordGauges_append (r : Readings) (ss ss' : List (String × Binary64)) :
    (r.recordGauges ss).recordGauges ss' = r.recordGauges (ss ++ ss') := by
  simp [recordGauges, List.foldl_append]

/-- **Each name's last finite sample.** Recording samples keeps the names in strictly
ascending order, and each name then holds its last finite sample, or what it held before
when it has none. -/
theorem recordGauges_spec (ss : List (String × Binary64)) : ∀ r : Readings,
    (r.gauges.map Prod.fst).Pairwise (· < ·) →
      ((r.recordGauges ss).gauges.map Prod.fst).Pairwise (· < ·) ∧
        ∀ m, (r.recordGauges ss).gauge? m =
          ((ss.filter fun s => s.2.isFinite).reverse.lookup m).or (r.gauge? m) := by
  -- on the samples, each one recorded onto the readings the earlier ones left
  induction ss with
  | nil => exact fun r h => ⟨h, fun m => by simp [recordGauges, gauge?]⟩
  | cons s ss ih =>
    intro r h
    have hstep : r.recordGauges (s :: ss) = (r.recordGauges [s]).recordGauges ss := by
      rw [recordGauges_append]
      rfl
    have hs : ((r.recordGauges [s]).gauges.map Prod.fst).Pairwise (· < ·) := by
      rw [recordGauges_single]
      split
      · exact sorted_insertSorted _ _ _ h
      · exact h
    obtain ⟨hsorted, hget⟩ := ih _ hs
    refine ⟨hstep ▸ hsorted, fun m => ?_⟩
    rw [hstep, hget]
    have hone : (r.recordGauges [s]).gauge? m =
        (([s].filter fun s => s.2.isFinite).lookup m).or (r.gauge? m) := by
      obtain ⟨k, x⟩ := s
      unfold gauge?
      rw [recordGauges_single]
      by_cases hf : x.isFinite
      · by_cases hm : m = k <;> simp [hf, lookup_insertSorted, hm, lookup_cons_ite]
      · simp [hf]
    rw [hone, ← Option.or_assoc, ← List.lookup_append, List.filter_cons]
    by_cases hf : s.2.isFinite <;> simp [hf]

end Readings

/-! ## Gauges along a run of the agent -/

/-- The samples an event records: those of a `sample` event, none for the others. -/
def Event.samples : Event → List (String × Binary64)
  | .sample ss => ss
  | _ => []

namespace Agent

variable {σ : Type} (signer : Signer) (key : Option Rsa.PublicKey)
  (deliver : σ → Envelope → Bool × σ)

theorem recordGauges_congr {r r' : Readings} (h : r.gauges = r'.gauges)
    (ss : List (String × Binary64)) : (r.recordGauges ss).gauges = (r'.recordGauges ss).gauges := by
  simp [Readings.recordGauges, h]

/-- Sending a chunk leaves the gauges: it acknowledges a snapshot at most. -/
theorem sendChunk_gauges (snap : Snapshot) (count : Nat) (f : Nat) (r : Readings) (st : σ)
    (chunk : List Record) (i : Nat) :
    (sendChunk snap count key deliver (f, r, st) (chunk, i)).2.1.gauges = r.gauges := by
  rcases sendChunk_cases snap count key deliver f r st chunk i with ⟨-, h⟩ | ⟨-, h⟩
  · rw [h]
  · rw [h]
    split <;> rfl

/-- Only samples move the gauges: polls and the report cycles leave them, acknowledging a
snapshot included. -/
theorem step_gauges (a : Agent σ) (e : Event) :
    (step signer key deliver a e).readings.gauges = (a.readings.recordGauges e.samples).gauges := by
  cases e with
  | poll => rfl
  | sample ss => rfl
  | start =>
    simp only [step]
    split <;> rfl
  | send =>
    simp only [step]
    split
    · rfl
    · split
      · rfl
      · exact sendChunk_gauges key deliver _ _ _ _ _ _ _

/-- The gauges after a run are those that recording every sample of it, in order, gives. -/
theorem foldl_step_gauges : ∀ (es : List Event) (a : Agent σ),
    (es.foldl (step signer key deliver) a).readings.gauges =
      (a.readings.recordGauges (es.flatMap Event.samples)).gauges
  | [], a => by simp [Readings.recordGauges]
  | e :: es, a => by
    rw [List.foldl_cons, foldl_step_gauges es, List.flatMap_cons,
      ← Readings.recordGauges_append]
    exact recordGauges_congr (step_gauges signer key deliver a e) _

/-- **The gauges of a run**: whatever polls, samples and report cycles come, in any order,
the gauges stay in strictly ascending order of name, and each name holds its last finite
sample of the run, or what it held before when the run has none. -/
theorem foldl_step_gauge? (es : List Event) (a : Agent σ)
    (h : (a.readings.gauges.map Prod.fst).Pairwise (· < ·)) :
    let b := es.foldl (step signer key deliver) a
    (b.readings.gauges.map Prod.fst).Pairwise (· < ·) ∧
      ∀ m, b.readings.gauge? m =
        (((es.flatMap Event.samples).filter fun s => s.2.isFinite).reverse.lookup m).or
          (a.readings.gauge? m) := by
  intro b
  have hb : b.readings.gauges = (a.readings.recordGauges (es.flatMap Event.samples)).gauges :=
    foldl_step_gauges signer key deliver es a
  obtain ⟨hsorted, hget⟩ := Readings.recordGauges_spec (es.flatMap Event.samples) a.readings h
  refine ⟨hb ▸ hsorted, fun m => ?_⟩
  rw [← hget]
  unfold Readings.gauge?
  rw [hb]

end Agent

/-! ## What the transport is handed -/

section Logged

variable {σ : Type}

/-- A transport that also keeps each envelope it is handed, with its answer. -/
def logged (deliver : σ → Envelope → Bool × σ) (st : σ × List (Envelope × Bool))
    (env : Envelope) : Bool × (σ × List (Envelope × Bool)) :=
  ((deliver st.1 env).1, (deliver st.1 env).2, st.2 ++ [(env, (deliver st.1 env).1)])

variable (snap : Snapshot) (count : Nat) (key : Option Rsa.PublicKey)
  (deliver : σ → Envelope → Bool × σ)

/-- Keeping a log changes nothing else: the chunks sealed are handed over in order, each
once, and the failed ones are those that did not seal and those refused. -/
theorem foldl_sendChunk_logged : ∀ (ps : List (List Record × Nat)) (f : Nat) (r : Readings)
    (st : σ) (log : List (Envelope × Bool)),
    let out := ps.foldl (sendChunk snap count key (logged deliver)) (f, r, st, log)
    let plain := ps.foldl (sendChunk snap count key deliver) (f, r, st)
    out.1 = plain.1 ∧ out.2.1 = plain.2.1 ∧ out.2.2.1 = plain.2.2 ∧
      ∃ sent, out.2.2.2 = log ++ sent ∧
        sent.map Prod.fst = ps.filterMap (fun p => (Envelope.sealBatch p.1 key).toOption) ∧
        plain.1 = f + (ps.filter fun p => !(Envelope.sealBatch p.1 key).isOk).length +
          (sent.filter fun e => !e.2).length
  | [], f, r, st, log => by
    refine ⟨rfl, rfl, rfl, [], by simp, by simp, by simp⟩
  | (c, i) :: ps, f, r, st, log => by
    simp only [List.foldl_cons]
    cases hs : Envelope.sealBatch c key with
    | error e =>
      have hstep : sendChunk snap count key (logged deliver) (f, r, st, log) (c, i) =
          (f + 1, r, st, log) := by simp [sendChunk, hs]
      have hplain : sendChunk snap count key deliver (f, r, st) (c, i) = (f + 1, r, st) := by
        simp [sendChunk, hs]
      obtain ⟨h₁, h₂, h₃, sent, hlog, hmap, hcount⟩ :=
        foldl_sendChunk_logged ps (f + 1) r st log
      rw [hstep, hplain]
      refine ⟨h₁, h₂, h₃, sent, hlog, ?_, ?_⟩
      · simp [hmap, hs, Except.toOption]
      · rw [hcount]
        simp [hs, Except.isOk, Except.toBool]
        omega
    | ok env =>
      rcases hd : deliver st env with ⟨ok, st'⟩
      set r' := if ok = true ∧ i + 1 = count then r.acknowledge snap else r
      set f' := if ok = true then f else f + 1
      have hstep : sendChunk snap count key (logged deliver) (f, r, st, log) (c, i) =
          (f', r', st', log ++ [(env, ok)]) := by
        cases ok <;> simp [sendChunk, hs, logged, hd, f', r']
      have hplain : sendChunk snap count key deliver (f, r, st) (c, i) = (f', r', st') := by
        cases ok <;> simp [sendChunk, hs, hd, f', r']
      obtain ⟨h₁, h₂, h₃, sent, hlog, hmap, hcount⟩ :=
        foldl_sendChunk_logged ps f' r' st' (log ++ [(env, ok)])
      rw [hstep, hplain]
      refine ⟨h₁, h₂, h₃, (env, ok) :: sent, by simp [hlog], ?_, ?_⟩
      · simp [hmap, hs, Except.toOption]
      · rw [hcount]
        cases ok <;> simp [f', hs, Except.isOk, Except.toBool]
        omega

/-- Over the chunks with their indices, what depends on a chunk alone counts as over the
chunks. -/
theorem filterMap_zipIdx {β : Type} (cs : List (List Record)) (g : List Record → Option β) :
    cs.zipIdx.filterMap (fun p => g p.1) = cs.filterMap g := by
  conv_rhs => rw [← List.zipIdx_map_fst 0 cs, List.filterMap_map]
  rfl

theorem length_filter_zipIdx (cs : List (List Record)) (g : List Record → Bool) :
    (cs.zipIdx.filter fun p => g p.1).length = (cs.filter g).length := by
  conv_rhs => rw [← List.zipIdx_map_fst 0 cs, List.filter_map, List.length_map]
  rfl

theorem length_records (s : Snapshot) (signer : Signer) :
    (s.records signer).length = s.gauges.length + 1 := by
  simp [Snapshot.records]

/-- **What a report sends.** A report through any transport makes `⌈(g + 1) / 10⌉` chunks of
the `g + 1` records, the gauges then `PollCount`: chunk `i` holds the records from `10 i` on,
ten of them except in the last chunk, which ends with `PollCount`. Each chunk that seals is
handed to the transport once, in order, whether earlier ones were refused or not, and the
failed chunks are those that did not seal and those the transport refused. Keeping a log of
what the transport is handed changes nothing else. -/
theorem report_logged (r : Readings) (signer : Signer) (key : Option Rsa.PublicKey)
    (deliver : σ → Envelope → Bool × σ) (st : σ) :
    let records := r.snapshot.records signer
    let chunks := chunksOf chunkSize records
    let out := report r signer key (logged deliver) (st, [])
    let plain := report r signer key deliver st
    plain.1 = out.1 ∧ plain.2.1 = out.2.1 ∧ plain.2.2 = out.2.2.1 ∧
      out.1.chunks = (r.gauges.length + 10) / 10 ∧ out.1.records = r.gauges.length + 1 ∧
      (∀ i < out.1.chunks, chunks[i]? = some ((records.drop (10 * i)).take 10)) ∧
      (∀ i, i + 1 < out.1.chunks → ((records.drop (10 * i)).take 10).length = 10) ∧
      chunks.getLast?.bind List.getLast? =
        some ((Value.counter r.snapshot.pollDelta).toRecord Snapshot.pollCount signer) ∧
      out.2.2.2.map Prod.fst = chunks.filterMap (fun c => (Envelope.sealBatch c key).toOption) ∧
      out.1.failed = (chunks.filter fun c => !(Envelope.sealBatch c key).isOk).length +
        (out.2.2.2.filter fun e => !e.2).length := by
  intro records chunks out plain
  obtain ⟨h₁, h₂, h₃, sent, hlog, hmap, hcount⟩ := foldl_sendChunk_logged r.snapshot
    chunks.length key deliver chunks.zipIdx 0 r st []
  have hlen : chunks.length = (r.gauges.length + 10) / 10 := by
    rw [length_chunksOf (by decide), length_records]
    rfl
  have hout : out = _ := report_eq key (logged deliver) r signer (st, [])
  have hplain : plain = _ := report_eq key deliver r signer st
  simp only [List.nil_append] at hlog
  refine ⟨?_, ?_, ?_, ?_, ?_, ?_, ?_, ?_, ?_, ?_⟩
  · rw [hout, hplain, h₁]
  · rw [hout, hplain, h₂]
  · rw [hout, hplain, h₃]
  · rw [hout]
    exact hlen
  · rw [hout]
    exact length_records _ _
  · intro i hi
    rw [hout] at hi
    exact getElem?_chunksOf (by decide) records hi
  · intro i hi
    rw [hout] at hi
    exact length_chunk_of_lt (by decide) records hi
  · rw [getLast?_chunksOf (by decide)]
    simp [records, Snapshot.records]
  · rw [hout]
    simp only
    rw [hlog, hmap]
    exact filterMap_zipIdx chunks fun c => (Envelope.sealBatch c key).toOption
  · rw [hout]
    simp only
    have hfail := length_filter_zipIdx chunks fun c => !(Envelope.sealBatch c key).isOk
    rw [h₁, hcount, hlog, hfail, Nat.zero_add]

/-- A log whose envelopes are the images of a list, where each image is related to its
element, pairs them off one by one. -/
theorem forall₂_of_filterMap {α β γ : Type} {f : α → Option β} {R : α → β → Prop} {cs : List α}
    (hf : ∀ c ∈ cs, ∃ e, f c = some e ∧ R c e) :
    ∀ {l : List (β × γ)}, l.map Prod.fst = cs.filterMap f →
      List.Forall₂ (fun c p => R c p.1) cs l := by
  induction cs with
  | nil => intro l h; simp_all
  | cons c cs ih =>
    intro l h
    obtain ⟨e, he, hR⟩ := hf c List.mem_cons_self
    rw [List.filterMap_cons_some he] at h
    cases l with
    | nil => cases h
    | cons p l' =>
      rw [List.map_cons, List.cons.injEq] at h
      exact .cons (h.1 ▸ hR) (ih (fun c' hc' => hf c' (List.mem_cons_of_mem _ hc')) h.2)

/-- **Every envelope opens to its chunk, each value as its text reads**, when the text of each
gauge `x` reads as `g x`, the key (if any) has at least 67 bytes and opens what it seals, and
every chunk's text is within the inflate limit: the transport is handed one envelope per chunk,
in order, each opening to the chunk with every double `x` in it replaced by `g x`, and the
failed chunks are those it refused. -/
theorem report_logged_opens_as (r : Readings) (signer : Signer) {g : Binary64 → Binary64}
    {key : Option Rsa.PrivateKey} (hkey : ∀ k ∈ key, 67 ≤ Rsa.size k.n ∧ k.Opens)
    (deliver : σ → Envelope → Bool × σ) (st : σ) (hreads : ∀ p ∈ r.gauges, p.2.ReadsAs (g p.2))
    (hsize : ∀ c ∈ chunksOf chunkSize (r.snapshot.records signer),
      (Record.listToJsonText c).toUTF8.size ≤ Gzip.limit) :
    let chunks := chunksOf chunkSize (r.snapshot.records signer)
    let out := report r signer (key.map Rsa.PrivateKey.toPublic) (logged deliver) (st, [])
    List.Forall₂ (fun c e => Envelope.decodeBatch e.1.body
        (Headers.ofLookup fun name => e.1.headers.pairs.lookup name) key =
          .ok (c.map fun x => { x with value := x.value.map g })) chunks out.2.2.2 ∧
      out.1.failed = (out.2.2.2.filter fun e => !e.2).length := by
  intro chunks out
  obtain ⟨-, -, -, -, -, -, -, -, hmap, hfailed⟩ :=
    report_logged r signer (key.map Rsa.PrivateKey.toPublic) deliver st
  have hrecords : ∀ x ∈ r.snapshot.records signer, ∀ y ∈ x.value, y.ReadsAs (g y) :=
    Snapshot.readsAs_records hreads
  -- every chunk seals, and what it seals to opens to it, as its values read
  have hopen : ∀ c ∈ chunks, ∃ env, Envelope.sealBatch c (key.map Rsa.PrivateKey.toPublic) =
      .ok env ∧ Envelope.decodeBatch env.body
        (Headers.ofLookup fun name => env.headers.pairs.lookup name) key =
          .ok (c.map fun x => { x with value := x.value.map g }) := by
    intro c hc
    refine Envelope.decodeBatch_sealBatch_of_fits_as (fun x hx => hrecords x ?_) hkey (.inr rfl)
      (hsize c hc)
    rw [← flatten_chunksOf (by decide : 0 < chunkSize) (r.snapshot.records signer)]
    exact List.mem_flatten_of_mem hc hx
  refine ⟨forall₂_of_filterMap (R := fun c env => Envelope.decodeBatch env.body
    (Headers.ofLookup fun name => env.headers.pairs.lookup name) key =
      .ok (c.map fun x => { x with value := x.value.map g }))
    (fun c hc => ?_) hmap, ?_⟩
  · obtain ⟨env, hseal, hdec⟩ := hopen c hc
    exact ⟨env, by rw [hseal]; rfl, hdec⟩
  · have hnone : (chunks.filter fun c =>
        !(Envelope.sealBatch c (key.map Rsa.PrivateKey.toPublic)).isOk) = [] := by
      rw [List.filter_eq_nil_iff]
      intro c hc
      obtain ⟨env, hseal, -⟩ := hopen c hc
      simp [hseal, Except.isOk, Except.toBool]
    rw [hfailed, hnone, List.length_nil, Nat.zero_add]

/-- **Every envelope opens to its chunk**, when every gauge reads back from its wire text,
the key (if any) has at least 67 bytes and opens what it seals, and every chunk's text is
within the inflate limit: the transport is handed one envelope per chunk, in order, each
opening to the chunk, and the failed chunks are those it refused. -/
theorem report_logged_opens (r : Readings) (signer : Signer) {key : Option Rsa.PrivateKey}
    (hkey : ∀ k ∈ key, 67 ≤ Rsa.size k.n ∧ k.Opens) (deliver : σ → Envelope → Bool × σ) (st : σ)
    (hback : ∀ p ∈ r.gauges, p.2.ReadsBack)
    (hsize : ∀ c ∈ chunksOf chunkSize (r.snapshot.records signer),
      (Record.listToJsonText c).toUTF8.size ≤ Gzip.limit) :
    let chunks := chunksOf chunkSize (r.snapshot.records signer)
    let out := report r signer (key.map Rsa.PrivateKey.toPublic) (logged deliver) (st, [])
    List.Forall₂ (fun c e => Envelope.decodeBatch e.1.body
        (Headers.ofLookup fun name => e.1.headers.pairs.lookup name) key = .ok c) chunks
        out.2.2.2 ∧
      out.1.failed = (out.2.2.2.filter fun e => !e.2).length := by
  simpa using report_logged_opens_as r signer (g := fun x => x) hkey deliver st hback hsize

end Logged

/-! ## A report cycle -/

/-- **Reports send the latest gauges and the poll count in chunks of ten.** Along any run of
the agent the gauges keep, in ascending order of name, each name's last finite sample. A
report through any transport makes `⌈(g + 1) / 10⌉` chunks of its `g + 1` records: chunk `i`
holds the records from `10 i` on, all but the last chunk hold ten, and the last ends with
`PollCount`. Each chunk that seals is handed to the transport once and in order, a refusal
stopping none of the later ones, and the failed chunks are those that did not seal and those
refused. When every gauge reads back from its wire text, the key opens what it seals and
every chunk is within the inflate limit, the envelope handed over for each chunk opens to
that chunk. -/
theorem report_sends_latest_in_chunks {σ : Type} :
    (∀ (signer : Signer) (key : Option Rsa.PublicKey) (deliver : σ → Envelope → Bool × σ)
      (es : List Event) (a : Agent σ), (a.readings.gauges.map Prod.fst).Pairwise (· < ·) →
      let b := es.foldl (Agent.step signer key deliver) a
      (b.readings.gauges.map Prod.fst).Pairwise (· < ·) ∧
        ∀ m, b.readings.gauge? m =
          (((es.flatMap Event.samples).filter fun s => s.2.isFinite).reverse.lookup m).or
            (a.readings.gauge? m)) ∧
    (∀ (r : Readings) (signer : Signer) (key : Option Rsa.PublicKey)
      (deliver : σ → Envelope → Bool × σ) (st : σ),
      let records := r.snapshot.records signer
      let chunks := chunksOf chunkSize records
      let out := report r signer key (logged deliver) (st, [])
      let plain := report r signer key deliver st
      plain.1 = out.1 ∧ plain.2.1 = out.2.1 ∧ plain.2.2 = out.2.2.1 ∧
        out.1.chunks = (r.gauges.length + 10) / 10 ∧ out.1.records = r.gauges.length + 1 ∧
        (∀ i < out.1.chunks, chunks[i]? = some ((records.drop (10 * i)).take 10)) ∧
        (∀ i, i + 1 < out.1.chunks → ((records.drop (10 * i)).take 10).length = 10) ∧
        chunks.getLast?.bind List.getLast? =
          some ((Value.counter r.snapshot.pollDelta).toRecord Snapshot.pollCount signer) ∧
        out.2.2.2.map Prod.fst = chunks.filterMap (fun c => (Envelope.sealBatch c key).toOption) ∧
        out.1.failed = (chunks.filter fun c => !(Envelope.sealBatch c key).isOk).length +
          (out.2.2.2.filter fun e => !e.2).length) ∧
    (∀ (r : Readings) (signer : Signer) (key : Option Rsa.PrivateKey),
      (∀ k ∈ key, 67 ≤ Rsa.size k.n ∧ k.Opens) → ∀ (deliver : σ → Envelope → Bool × σ) (st : σ),
      (∀ p ∈ r.gauges, p.2.ReadsBack) →
      (∀ c ∈ chunksOf chunkSize (r.snapshot.records signer),
        (Record.listToJsonText c).toUTF8.size ≤ Gzip.limit) →
      let chunks := chunksOf chunkSize (r.snapshot.records signer)
      let out := report r signer (key.map Rsa.PrivateKey.toPublic) (logged deliver) (st, [])
      List.Forall₂ (fun c e => Envelope.decodeBatch e.1.body
          (Headers.ofLookup fun name => e.1.headers.pairs.lookup name) key = .ok c) chunks
          out.2.2.2 ∧
        out.1.failed = (out.2.2.2.filter fun e => !e.2).length) :=
  ⟨fun signer key deliver es a h => Agent.foldl_step_gauge? signer key deliver es a h,
    fun r signer key deliver st => report_logged r signer key deliver st,
    fun r signer _ hkey deliver st hback hsize =>
      report_logged_opens r signer hkey deliver st hback hsize⟩

/-- A gauge of `1.5` reported through a transport that takes everything: the one envelope
opens to the gauge and `PollCount`, and nothing fails. -/
theorem report_sends_alloc :
    let r : Readings := { gauges := [("Alloc", ⟨4609434218613702656⟩)] }
    let signer := Signer.new (some "k")
    let deliver : Unit → Envelope → Bool × Unit := fun u _ => (true, u)
    (∀ k ∈ (none : Option Rsa.PrivateKey), 67 ≤ Rsa.size k.n ∧ k.Opens) ∧
      (∀ p ∈ r.gauges, p.2.ReadsBack) ∧
      (∀ c ∈ chunksOf chunkSize (r.snapshot.records signer),
        (Record.listToJsonText c).toUTF8.size ≤ Gzip.limit) ∧
      let chunks := chunksOf chunkSize (r.snapshot.records signer)
      let out := report r signer ((none : Option Rsa.PrivateKey).map Rsa.PrivateKey.toPublic)
        (logged deliver) ((), [])
      List.Forall₂ (fun c e => Envelope.decodeBatch e.1.body
          (Headers.ofLookup fun name => e.1.headers.pairs.lookup name) none = .ok c) chunks
          out.2.2.2 ∧
        out.1.failed = (out.2.2.2.filter fun e => !e.2).length := by
  intro r signer deliver
  have hkey : ∀ k ∈ (none : Option Rsa.PrivateKey), 67 ≤ Rsa.size k.n ∧ k.Opens := by simp
  have hback : ∀ p ∈ r.gauges, p.2.ReadsBack := by
    simp only [r, List.mem_singleton, forall_eq]
    unfold Binary64.ReadsBack
    decide +kernel
  have hsize : ∀ c ∈ chunksOf chunkSize (r.snapshot.records signer),
      (Record.listToJsonText c).toUTF8.size ≤ Gzip.limit := by
    -- one chunk, as long as it would be with any signatures
    rw [chunksOf_of_length_le (by decide) (by simp [Snapshot.records]) (by decide)]
    simp only [List.mem_singleton, forall_eq]
    rw [Snapshot.size_listToJsonText_records]
    decide +kernel
  exact ⟨hkey, hback, hsize,
    report_sends_latest_in_chunks.2.2 r signer none hkey deliver () hback hsize⟩

/-- The double nearest `2e-23` is written `2e-23`, which reads as the next double up: a report
of a gauge holding it hands over one envelope, which opens to the records of the gauge one
double up, not to the chunk that was sent. -/
theorem report_opens_gauge_misread :
    let r : Readings := { gauges := [("A", ⟨4267210894830907985⟩)] }
    let r' : Readings := { gauges := [("A", ⟨4267210894830907986⟩)] }
    let deliver : Unit → Envelope → Bool × Unit := fun u _ => (true, u)
    let out := report r (Signer.new none) none (logged deliver) ((), [])
    chunksOf chunkSize (r.snapshot.records (Signer.new none)) =
        [r.snapshot.records (Signer.new none)] ∧
      r'.snapshot.records (Signer.new none) ≠ r.snapshot.records (Signer.new none) ∧
      ∃ env ok, out.2.2.2 = [(env, ok)] ∧
        Envelope.decodeBatch env.body
          (Headers.ofLookup fun name => env.headers.pairs.lookup name) none =
          .ok (r'.snapshot.records (Signer.new none)) := by
  intro r r' deliver out
  have hchunks : chunksOf chunkSize (r.snapshot.records (Signer.new none)) =
      [r.snapshot.records (Signer.new none)] := by
    rfl
  have hkey : ∀ k ∈ (none : Option Rsa.PrivateKey), 67 ≤ Rsa.size k.n ∧ k.Opens := by
    simp
  -- the gauge's text reads as the next double up
  have hreads : ∀ p ∈ r.gauges, p.2.ReadsAs ⟨4267210894830907986⟩ := by
    simp only [r, List.mem_singleton, forall_eq]
    unfold Binary64.ReadsAs
    decide +kernel
  have hsize : ∀ c ∈ chunksOf chunkSize (r.snapshot.records (Signer.new none)),
      (Record.listToJsonText c).toUTF8.size ≤ Gzip.limit := by
    rw [hchunks]
    simp only [List.mem_singleton, forall_eq]
    rw [Snapshot.size_listToJsonText_records]
    decide +kernel
  -- both doubles sign alike, so the chunk with its double read is the records of `r'`
  have hmsg : (Value.gauge ⟨4267210894830907985⟩).canonicalMessage "A" =
      (Value.gauge ⟨4267210894830907986⟩).canonicalMessage "A" := by
    decide +kernel
  have hread : (r.snapshot.records (Signer.new none)).map
      (fun x => { x with value := x.value.map fun _ => ⟨4267210894830907986⟩ }) =
        r'.snapshot.records (Signer.new none) := by
    simp only [r, r', Readings.snapshot, Snapshot.records, List.map_cons, List.map_nil,
      List.cons_append, List.nil_append, Value.toRecord, hmsg]
    rfl
  obtain ⟨hopen, -⟩ := report_logged_opens_as r (Signer.new none)
    (g := fun _ => ⟨4267210894830907986⟩) hkey deliver () hreads hsize
  -- one chunk, so one envelope, and it opens to the chunk as its double reads
  rw [hchunks] at hopen
  obtain ⟨⟨env, ok⟩, rest, hdec, hrest, hlog⟩ := List.forall₂_cons_left_iff.mp hopen
  rw [List.forall₂_nil_left_iff.mp hrest] at hlog
  refine ⟨hchunks, by decide +kernel, env, ok, hlog, ?_⟩
  rw [hdec, hread]

end Telemetry

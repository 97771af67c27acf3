import Mathlib
import Telemetry.Server.Service
import Telemetry.Proofs.Metric.Signature
import Telemetry.Proofs.Envelope.RoundTrip
import Telemetry.Proofs.Agent.Accounting
import Telemetry.Proofs.Metric.WireSize
import Telemetry.Proofs.Crypto.Sealing

/-
  A report delivered to a service's batch endpoint.

  `Service.deliver` is the transport that hands an envelope, with its header pairs, to the
  service's `updatesJson` and answers whether the service took it. The agent signs with the
  service's signer and seals with nothing or with the public half of the service's key
  (`Envelope.OpensWith`): a body sent in the clear opens whatever key the service holds.
  Suppose every gauge of the readings reads back from its wire text, none is named
  `PollCount`, the store binds none of their names to a counter and `PollCount` to no gauge,
  and every chunk's text is within the inflate limit. Then every chunk is taken
  (`report_accepted`): the store ends with each gauge set to its reading and `PollCount`
  moved by the snapshot's delta, by saturating addition, and the readings acknowledge the
  snapshot.

  The argument: each chunk seals and opens to itself (`decodeBatch_sealBatch_of_fits`), and
  each of its records passes the service's hash check (`Integrity.check_toRecord`). Taking the chunks
  one after another takes the snapshot's records in order (`flatten_chunksOf`,
  `ingestEach_append`), gauges first and `PollCount` last (`ingestEach_records`). Only the last
  chunk acknowledges the snapshot.

  When the readings' acknowledged count lies between zero and the poll count, the count
  becomes the poll count. A store whose `PollCount` stood at the acknowledged count then holds
  the poll count, so the server keeps pace with the agent (`report_delivers_snapshot`). A store
  total above it can reach the top of the 64-bit range and stay there
  (`report_saturates_poll_count`).
-/

namespace Telemetry

namespace Service

/-- The transport that hands each envelope, with its header pairs, to a service's batch
endpoint, and answers whether the service took it. -/
def deliver (s : Service) (env : Envelope) : Bool × Service :=
  match s.updatesJson env.body (Headers.ofLookup fun name => env.headers.pairs.lookup name) with
  | .ok (_, s') => (true, s')
  | .error _ => (false, s)

/-- An envelope that opens to records the store takes one by one is taken, and only the
store changes. -/
theorem deliver_of_decode {s : Service} {env : Envelope} {rs : List Record} {q : Store}
    (hdec : Envelope.decodeBatch env.body
      (Headers.ofLookup fun name => env.headers.pairs.lookup name) s.key = .ok rs)
    (hing : s.store.ingestEach s.integrity rs = .ok q) :
    s.deliver env = (true, { s with store := q }) := by
  have hbatch : s.store.ingestBatch rs s.integrity = .ok ((rs.map Record.id).dedup.length, q) :=
    Store.ingestBatch_eq_ok_iff.2 ⟨hing, rfl⟩
  simp [deliver, updatesJson, withStore, hdec, hbatch, bind, Except.bind, Except.map]

end Service

/-! ## The store takes a snapshot's records -/

theorem Snapshot.records_eq (snap : Snapshot) (signer : Signer) :
    snap.records signer = snap.gauges.map (fun p => (Value.gauge p.2).toRecord p.1 signer) ++
      [(Value.counter snap.pollDelta).toRecord Snapshot.pollCount signer] :=
  rfl

namespace Store

variable {i : Integrity}

/-- A store takes the record of a finite value, signed with the integrity's signer, as that
value merged under its name. -/
theorem ingestRecord_toRecord {s : Store} {v w : Value} (hv : v.Finite) {n : String}
    (hm : s.mergeInto n v = .ok w) :
    s.ingestRecord (v.toRecord n i.signer) i = .ok (w, s.put n w) := by
  rw [ingestRecord_eq_ok]
  refine ⟨v, toValue_toRecord hv n i.signer, i.check_toRecord hv n, ?_⟩
  rw [id_toRecord]
  exact ingestValue_eq_ok.2 ⟨hm, rfl⟩

/-- Writing named values leaves every other name as it was. -/
theorem get?_putAll_of_not_mem {l : List (String × Value)} {m : String}
    (h : m ∉ l.map Prod.fst) : ∀ s : Store, (s.putAll l).get? m = s.get? m := by
  induction l with
  | nil => exact fun _ => rfl
  | cons p l ih =>
    intro s
    rw [List.map_cons, List.mem_cons, not_or] at h
    rw [putAll_cons, ih h.2, get?_put_of_ne _ h.1]

/-- Signed gauge readings over a store that binds none of their names to a counter are
taken one by one, each reading set under its name. -/
theorem ingestEach_gauges (gs : List (String × Binary64)) : ∀ s : Store,
    (∀ p ∈ gs, p.2.isFinite = true ∧ ∀ c, s.get? p.1 = some c → c.kind = .gauge) →
      s.ingestEach i (gs.map fun p => (Value.gauge p.2).toRecord p.1 i.signer) =
        .ok (s.putAll (gs.map fun p => (p.1, .gauge p.2))) := by
  -- on the readings, over the store each one leaves
  induction gs with
  | nil => exact fun _ _ => rfl
  | cons p gs ih =>
    intro s hgs
    obtain ⟨hx, hkind⟩ := hgs p List.mem_cons_self
    have hrest : ∀ p' ∈ gs, p'.2.isFinite = true ∧
        ∀ c, (s.put p.1 (.gauge p.2)).get? p'.1 = some c → c.kind = .gauge := by
      intro p' hp'
      have hp'' := hgs p' (List.mem_cons_of_mem _ hp')
      refine ⟨hp''.1, fun c hc => ?_⟩
      rw [get?_put] at hc
      split at hc
      · cases hc
        rfl
      · exact hp''.2 c hc
    rw [List.map_cons, List.map_cons, putAll_cons, ingestEach,
      ingestRecord_toRecord (show Value.Finite (.gauge p.2) from hx) (mergeInto_gauge hkind p.2)]
    exact ih _ hrest

/-- A snapshot's records over a store that binds none of its gauge names to a counter and
`PollCount` to no gauge: every gauge is set to its reading, then `PollCount` takes the
snapshot's delta by saturating addition. -/
theorem ingestEach_records {snap : Snapshot} {s : Store} {c : Int64}
    (hg : ∀ p ∈ snap.gauges, p.2.isFinite = true ∧ p.1 ≠ Snapshot.pollCount ∧
      ∀ v, s.get? p.1 = some v → v.kind = .gauge)
    (hc : s.counterTotal Snapshot.pollCount = some c) :
    s.ingestEach i (snap.records i.signer) =
      .ok ((s.putAll (snap.gauges.map fun p => (p.1, .gauge p.2))).put Snapshot.pollCount
        (.counter (Value.saturatingAdd c snap.pollDelta))) := by
  have hgauges := ingestEach_gauges (i := i) snap.gauges s fun p hp =>
    ⟨(hg p hp).1, (hg p hp).2.2⟩
  have hfresh : Snapshot.pollCount ∉ (snap.gauges.map fun p => (p.1, Value.gauge p.2)).map
      Prod.fst := by
    simp only [List.map_map, List.mem_map, Function.comp_apply, not_exists, not_and]
    exact fun p hp h => (hg p hp).2.1 h
  have hc' : (s.putAll (snap.gauges.map fun p => (p.1, .gauge p.2))).counterTotal
      Snapshot.pollCount = some c := by
    rw [← hc, counterTotal, counterTotal, get?_putAll_of_not_mem hfresh]
  rw [Snapshot.records_eq, ingestEach_append, hgauges]
  simp only [bind, Except.bind]
  rw [ingestEach, ingestRecord_toRecord (show Value.Finite (.counter snap.pollDelta) from trivial)
      (mergeInto_counter hc' snap.pollDelta)]
  rfl

end Store

/-! ## The chunks of a report -/

section Chunks

variable {snap : Snapshot} {count : Nat} {key : Option Rsa.PrivateKey} {pub : Option Rsa.PublicKey}

/-- A chunk that opens back to itself and that the store takes is accepted; it acknowledges
the snapshot when it is the last. -/
theorem sendChunk_taken {s : Service} (hs : s.key = key)
    (hkey : ∀ k ∈ key, 67 ≤ Rsa.size k.n ∧ k.Opens) (hpub : Envelope.OpensWith pub key)
    {chunk : List Record}
    (hback : ∀ x ∈ chunk, x.ValuesReadBack)
    (hsize : (Record.listToJsonText chunk).toUTF8.size ≤ Gzip.limit) {q : Store}
    (hing : s.store.ingestEach s.integrity chunk = .ok q) (f : Nat) (r : Readings) (k : Nat) :
    sendChunk snap count pub Service.deliver (f, r, s) (chunk, k) =
      (f, if k + 1 = count then r.acknowledge snap else r, { s with store := q }) := by
  obtain ⟨env, hseal, hdec⟩ := Envelope.decodeBatch_sealBatch_of_fits hback hkey hpub hsize
  rw [← hs] at hdec
  simp only [sendChunk, hseal, Service.deliver_of_decode hdec hing, if_true, beq_iff_eq]

/-- Chunks that each open back to themselves, taken one after another by the store, are all
accepted: nothing fails, the store ends as taking all their records in order leaves it, and
the snapshot is acknowledged when the chunk of index `count - 1` is among them. -/
theorem foldl_sendChunk_taken (hkey : ∀ k ∈ key, 67 ≤ Rsa.size k.n ∧ k.Opens)
    (hpub : Envelope.OpensWith pub key) (cs : List (List Record)) : ∀ (k f : Nat) (r : Readings) (s : Service) (q : Store),
      s.key = key →
      (∀ c ∈ cs, (∀ x ∈ c, x.ValuesReadBack) ∧
        (Record.listToJsonText c).toUTF8.size ≤ Gzip.limit) →
      s.store.ingestEach s.integrity cs.flatten = .ok q →
      (cs.zipIdx k).foldl (sendChunk snap count pub Service.deliver) (f, r, s) =
        (f, if k < count ∧ count ≤ k + cs.length then r.acknowledge snap else r,
          { s with store := q }) := by
  -- on the chunks, over the store each one leaves
  induction cs with
  | nil =>
    intro k f r s q _ _ hq
    simp only [List.flatten_nil, Store.ingestEach, Except.ok.injEq] at hq
    subst hq
    simp
  | cons c cs ih =>
    intro k f r s q hs hcs hq
    rw [List.flatten_cons, Store.ingestEach_append, Except.bind_eq_ok] at hq
    obtain ⟨q₁, hq₁, hq⟩ := hq
    obtain ⟨hback, hsize⟩ := hcs c List.mem_cons_self
    rw [List.zipIdx_cons, List.foldl_cons, sendChunk_taken hs hkey hpub hback hsize hq₁,
      ih (k + 1) f _ { s with store := q₁ } q hs (fun c' h => hcs c' (List.mem_cons_of_mem _ h)) hq,
      List.length_cons]
    by_cases hk : k + 1 = count
    · -- this chunk is the last: it acknowledges, and no later one does
      subst hk
      simp
    · have hiff : (k + 1 < count ∧ count ≤ k + 1 + cs.length) ↔
          (k < count ∧ count ≤ k + (cs.length + 1)) := by
        omega
      simp only [hk, if_false, hiff]

end Chunks

/-! ## A report -/

section Report

variable {r : Readings} {secret : String} {svc : Service} {c : Int64} {pub : Option Rsa.PublicKey}

/-- Every value of a snapshot's records reads as `g` of itself when its gauges do: the only
other record is the poll count's, which holds no double. -/
theorem Snapshot.readsAs_records {snap : Snapshot} {signer : Signer} {g : Binary64 → Binary64}
    (h : ∀ p ∈ snap.gauges, p.2.ReadsAs (g p.2)) :
    ∀ x ∈ snap.records signer, ∀ y ∈ x.value, y.ReadsAs (g y) := by
  intro x hx
  rw [Snapshot.records_eq, List.mem_append, List.mem_singleton] at hx
  rcases hx with hx | rfl
  · obtain ⟨p, hp, rfl⟩ := List.mem_map.1 hx
    exact Record.readsAs_toRecordWith (fun x hx => by cases hx; exact h p hp) p.1 _
  · exact Record.readsAs_toRecordWith (fun x hx => by cases hx) _ _

/-- Every record of a snapshot reads back when its gauges do. -/
theorem Snapshot.valuesReadBack_records {snap : Snapshot} {signer : Signer}
    (h : ∀ p ∈ snap.gauges, p.2.ReadsBack) : ∀ x ∈ snap.records signer, x.ValuesReadBack :=
  Snapshot.readsAs_records (g := fun x => x) h

/-- **A report to a service that shares the agent's signer and key is taken whole.** No
chunk fails; the store ends with every gauge set to its reading and `PollCount` moved by the
snapshot's delta, by saturating addition; the readings acknowledge the snapshot; and nothing
else of the service changes. -/
theorem report_accepted (hsigner : svc.integrity.signer = Signer.new (some secret))
    (hkey : ∀ k ∈ svc.key, 67 ≤ Rsa.size k.n ∧ k.Opens) (hpub : Envelope.OpensWith pub svc.key)
    (hgauges : ∀ p ∈ r.gauges, p.2.ReadsBack ∧ p.1 ≠ Snapshot.pollCount ∧
      ∀ v, svc.store.get? p.1 = some v → v.kind = .gauge)
    (hcount : svc.store.counterTotal Snapshot.pollCount = some c)
    (hsize : ∀ chunk ∈ chunksOf chunkSize (r.snapshot.records (Signer.new (some secret))),
      (Record.listToJsonText chunk).toUTF8.size ≤ Gzip.limit) :
    report r (Signer.new (some secret)) pub Service.deliver svc =
      (⟨(chunksOf chunkSize (r.snapshot.records (Signer.new (some secret)))).length, 0,
          r.gauges.length + 1⟩,
        r.acknowledge r.snapshot,
        { svc with store := ((svc.store.putAll (r.gauges.map fun p => (p.1, .gauge p.2))).put
            Snapshot.pollCount (.counter (Value.saturatingAdd c r.snapshot.pollDelta))) }) := by
  have hflat : (chunksOf chunkSize (r.snapshot.records (Signer.new (some secret)))).flatten =
      r.snapshot.records (Signer.new (some secret)) :=
    flatten_chunksOf (by decide) _
  have hback : ∀ x ∈ r.snapshot.records (Signer.new (some secret)), x.ValuesReadBack :=
    @Snapshot.valuesReadBack_records r.snapshot _ fun p hp => (hgauges p hp).1
  have hing := @Store.ingestEach_records svc.integrity r.snapshot svc.store c
    (fun p hp => ⟨Binary64.ReadsBack.isFinite (hgauges p hp).1, (hgauges p hp).2⟩) hcount
  rw [hsigner, ← hflat] at hing
  have hchunks : chunksOf chunkSize (r.snapshot.records (Signer.new (some secret))) ≠ [] :=
    chunksOf_ne_nil (by decide) (by simp [Snapshot.records])
  have hfold := @foldl_sendChunk_taken r.snapshot
    (chunksOf chunkSize (r.snapshot.records (Signer.new (some secret)))).length _ _
    hkey hpub _ 0 0 r svc _ rfl
    (fun chunk hc => ⟨fun x hx => hback x (hflat ▸ List.mem_flatten_of_mem hc hx),
      hsize chunk hc⟩) hing
  simp only [report_eq, hfold, Nat.zero_add, le_refl, and_true, List.length_pos_iff.2 hchunks,
    if_true]
  simp [Snapshot.records, Readings.snapshot]

/-- Acknowledging a readings' own snapshot moves its count to the poll count. -/
theorem Readings.acknowledge_snapshot {r : Readings} (hle : r.reported.toInt ≤ r.polls.toInt) :
    r.acknowledge r.snapshot = { r with reported := r.polls } := by
  have h := Readings.acknowledge_reported (s := r.snapshot) hle
  unfold Readings.acknowledge at h ⊢
  simp only at h
  rw [h]
  rfl

/-- The delta of a snapshot, added to the acknowledged count, gives the poll count. -/
theorem Readings.saturatingAdd_pollDelta {r : Readings} (h0 : 0 ≤ r.reported.toInt)
    (hle : r.reported.toInt ≤ r.polls.toInt) :
    Value.saturatingAdd r.reported r.snapshot.pollDelta = r.polls := by
  have hdelta := Readings.snapshot_pollDelta h0 hle
  have hhi := Int64.toInt_lt r.polls
  apply Int64.toInt_inj.1
  rw [Value.toInt_saturatingAdd_of_mem] <;>
    simp only [hdelta, Value.counterMin_eq, Value.counterMax_eq] <;> omega

/-- **A report keeps the service's poll count with the agent's.** An agent signing with the
service's signer, and sealing with nothing or with the public half of the service's key,
reports readings whose gauges read back from their wire text and are not named `PollCount`,
to a store that binds none of their names to a counter and holds `PollCount` at the total
`c` (zero when absent), each chunk's text within the inflate limit. Then no chunk fails; the
acknowledged count, between zero and the poll count, becomes the poll count; the store sets
every gauge to its reading and moves `PollCount` from `c` by the snapshot's delta, by
saturating addition, and nothing else of the service changes. A store whose `PollCount`
stood at the acknowledged count ends at the poll count. -/
theorem report_delivers_snapshot (hsigner : svc.integrity.signer = Signer.new (some secret))
    (hkey : ∀ k ∈ svc.key, 67 ≤ Rsa.size k.n ∧ k.Opens) (hpub : Envelope.OpensWith pub svc.key)
    (hgauges : ∀ p ∈ r.gauges, p.2.ReadsBack ∧ p.1 ≠ Snapshot.pollCount ∧
      ∀ v, svc.store.get? p.1 = some v → v.kind = .gauge)
    (hcount : svc.store.counterTotal Snapshot.pollCount = some c)
    (hsize : ∀ chunk ∈ chunksOf chunkSize (r.snapshot.records (Signer.new (some secret))),
      (Record.listToJsonText chunk).toUTF8.size ≤ Gzip.limit)
    (h0 : 0 ≤ r.reported.toInt) (hle : r.reported.toInt ≤ r.polls.toInt) :
    let out := report r (Signer.new (some secret)) pub Service.deliver svc
    out.1.failed = 0 ∧ out.2.1 = { r with reported := r.polls } ∧
      out.2.2 = { svc with store := ((svc.store.putAll (r.gauges.map fun p => (p.1, .gauge p.2))).put
        Snapshot.pollCount (.counter (Value.saturatingAdd c r.snapshot.pollDelta))) } ∧
      (c = r.reported → out.2.2.store.counterTotal Snapshot.pollCount = some r.polls) := by
  dsimp only
  rw [report_accepted hsigner hkey hpub hgauges hcount hsize]
  refine ⟨rfl, Readings.acknowledge_snapshot hle, rfl, ?_⟩
  rintro rfl
  simp [Store.counterTotal, Readings.saturatingAdd_pollDelta h0 hle]

/-- Three polls, one acknowledged, and a gauge of `1.5`, sealed with the public half of the
service's 532-bit key, reported to a service whose `PollCount` stands at one: the service ends
at three. -/
theorem report_delivers_snapshot_sealed :
    let r : Readings := { gauges := [("Alloc", ⟨4609434218613702656⟩)], polls := 3, reported := 1 }
    let svc : Service :=
      { store := ⟨[(Snapshot.pollCount, .counter 1)]⟩
        integrity := ⟨Signer.new (some "k"), true⟩
        key := some Rsa.sampleKey }
    (svc.integrity.signer = Signer.new (some "k")) ∧ (∀ k ∈ svc.key, 67 ≤ Rsa.size k.n ∧ k.Opens) ∧
      Envelope.OpensWith (some Rsa.sampleKey.toPublic) svc.key ∧
      (∀ p ∈ r.gauges, p.2.ReadsBack ∧ p.1 ≠ Snapshot.pollCount ∧
        ∀ v, svc.store.get? p.1 = some v → v.kind = .gauge) ∧
      svc.store.counterTotal Snapshot.pollCount = some 1 ∧
      (∀ chunk ∈ chunksOf chunkSize (r.snapshot.records (Signer.new (some "k"))),
        (Record.listToJsonText chunk).toUTF8.size ≤ Gzip.limit) ∧
      0 ≤ r.reported.toInt ∧ r.reported.toInt ≤ r.polls.toInt ∧
      let out := report r (Signer.new (some "k")) (some Rsa.sampleKey.toPublic) Service.deliver svc
      out.1.failed = 0 ∧ out.2.1 = { r with reported := r.polls } ∧
        out.2.2 = { svc with store := ((svc.store.putAll (r.gauges.map fun p => (p.1, .gauge p.2))).put
          Snapshot.pollCount (.counter (Value.saturatingAdd 1 r.snapshot.pollDelta))) } ∧
        (1 = r.reported → out.2.2.store.counterTotal Snapshot.pollCount = some r.polls) := by
  intro r svc
  -- the key has 67 bytes and, being valid, opens what it seals
  have hkey : ∀ k ∈ svc.key, 67 ≤ Rsa.size k.n ∧ k.Opens := by
    simp only [svc, Option.mem_def, Option.some.injEq, forall_eq']
    exact ⟨by decide +kernel, Rsa.sampleKey_valid.opens⟩
  have hpub : Envelope.OpensWith (some Rsa.sampleKey.toPublic) svc.key := .inr rfl
  have hgauges : ∀ p ∈ r.gauges, p.2.ReadsBack ∧ p.1 ≠ Snapshot.pollCount ∧
      ∀ v, svc.store.get? p.1 = some v → v.kind = .gauge := by
    simp only [r, List.mem_singleton, forall_eq]
    refine ⟨by unfold Binary64.ReadsBack; decide +kernel, by decide, fun v hv => ?_⟩
    have hnone : svc.store.get? "Alloc" = none := by decide
    rw [hnone] at hv
    cases hv
  have hcount : svc.store.counterTotal Snapshot.pollCount = some 1 := by
    decide
  have hsize : ∀ chunk ∈ chunksOf chunkSize (r.snapshot.records (Signer.new (some "k"))),
      (Record.listToJsonText chunk).toUTF8.size ≤ Gzip.limit := by
    -- one chunk, as long as it would be with any signatures
    rw [chunksOf_of_length_le (by decide) (by simp [Snapshot.records]) (by decide)]
    simp only [List.mem_singleton, forall_eq]
    rw [Snapshot.size_listToJsonText_records]
    decide +kernel
  have h0 : 0 ≤ r.reported.toInt := by decide
  have hle : r.reported.toInt ≤ r.polls.toInt := by decide
  exact ⟨rfl, hkey, hpub, hgauges, hcount, hsize, h0, hle,
    report_delivers_snapshot rfl hkey hpub hgauges hcount hsize h0 hle⟩

/-- A store whose `PollCount` is at the top of the 64-bit range stays there: a report of one
poll leaves it at 9223372036854775807, not one more. -/
theorem report_saturates_poll_count :
    let r : Readings := { polls := 1 }
    let svc : Service :=
      { store := ⟨[(Snapshot.pollCount, .counter 9223372036854775807)]⟩
        integrity := ⟨Signer.new (some "k"), false⟩ }
    r.snapshot.pollDelta = 1 ∧
      (report r (Signer.new (some "k")) (svc.key.map Rsa.PrivateKey.toPublic) Service.deliver
        svc).2.2.store.get? Snapshot.pollCount = some (.counter 9223372036854775807) := by
  intro r svc
  have hsize : ∀ chunk ∈ chunksOf chunkSize (r.snapshot.records (Signer.new (some "k"))),
      (Record.listToJsonText chunk).toUTF8.size ≤ Gzip.limit := by
    -- one chunk, as long as it would be with any signatures
    rw [chunksOf_of_length_le (by decide) (by simp [Snapshot.records]) (by decide)]
    simp only [List.mem_singleton, forall_eq]
    rw [Snapshot.size_listToJsonText_records]
    decide +kernel
  have h := @report_accepted r "k" svc 9223372036854775807 _ rfl (by simp [svc]) (.inr rfl)
    (by simp [r]) (by decide) hsize
  refine ⟨by decide, ?_⟩
  rw [h]
  simp only [Store.get?_put_self]
  decide

end Report

end Telemetry

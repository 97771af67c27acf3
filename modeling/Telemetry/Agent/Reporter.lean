import Telemetry.Envelope
import Telemetry.Metric.Signature

/-
  The agent's readings and their delivery.

  Readings hold the latest finite reading of each gauge, by name in ascending order, the
  number of polls (saturating), and how many of them the server has acknowledged. A snapshot
  takes the gauges and the polls not yet acknowledged; its records are the gauges, then
  `PollCount` with that delta. Acknowledging a snapshot marks its polls as delivered.

  A report sends a snapshot's records in chunks of ten, each sealed on its own. A chunk that
  cannot be sealed or is refused counts as failed and the rest are still sent; the polls are
  acknowledged only when the last chunk, which carries `PollCount`, is accepted.
-/

namespace Telemetry

/-- A point-in-time copy of the readings. -/
structure Snapshot where
  gauges : List (String × Binary64)
  /-- Polls not yet acknowledged. -/
  pollDelta : Int64
  /-- Polls counted when the copy was taken. -/
  watermark : Int64

namespace Snapshot

/-- The name of the poll counter. -/
def pollCount : String := "PollCount"

/-- Every value as a signed record: gauges first, the poll counter last. -/
def records (s : Snapshot) (signer : Signer) : List Record :=
  s.gauges.map (fun (n, x) => (Value.gauge x).toRecord n signer) ++
    [(Value.counter s.pollDelta).toRecord pollCount signer]

end Snapshot

/-- The agent's latest readings. -/
structure Readings where
  gauges : List (String × Binary64) := []
  polls : Int64 := 0
  reported : Int64 := 0

namespace Readings

/-- Inserts a reading into a list sorted by name, replacing the reading of that name. -/
def insertSorted (name : String) (x : Binary64) : List (String × Binary64) → List (String × Binary64)
  | [] => [(name, x)]
  | (n, y) :: rest =>
    if name == n then (name, x) :: rest
    else if name < n then (name, x) :: (n, y) :: rest
    else (n, y) :: insertSorted name x rest

/-- Records finite samples, each replacing the earlier reading of its name. -/
def recordGauges (r : Readings) (samples : List (String × Binary64)) : Readings :=
  let keep (gs : List (String × Binary64)) (s : String × Binary64) :=
    if s.2.isFinite then insertSorted s.1 s.2 gs else gs
  { r with gauges := samples.foldl keep r.gauges }

/-- Counts one poll. -/
def countPoll (r : Readings) : Readings :=
  { r with polls := Value.saturatingAdd r.polls 1 }

/-- The latest reading of a gauge. -/
def gauge? (r : Readings) (name : String) : Option Binary64 := r.gauges.lookup name

/-- A snapshot of the readings. -/
def snapshot (r : Readings) : Snapshot :=
  { gauges := r.gauges, pollDelta := r.polls - r.reported, watermark := r.polls }

/-- Marks the polls of a snapshot as delivered. -/
def acknowledge (r : Readings) (s : Snapshot) : Readings :=
  { r with reported := if r.reported < s.watermark then s.watermark else r.reported }

end Readings

/-- The outcome of one report. -/
structure ReportSummary where
  chunks : Nat
  failed : Nat
  records : Nat
  deriving DecidableEq, Repr

/-- Records per chunk. -/
def chunkSize : Nat := 10

/-- Splits a list into chunks of `n` (the last may be shorter). -/
def chunksOf (n : Nat) (xs : List α) : List (List α) :=
  let rec go (xs : List α) : Nat → List (List α)
    | 0 => []
    | fuel + 1 => if xs.isEmpty then [] else xs.take n :: go (xs.drop n) fuel
  go xs (xs.length + 1)

/-- Sends the chunk of index `i` among the `count` chunks of a snapshot, given the chunks
failed so far, the readings and the transport's state. A chunk that cannot be sealed or is
refused counts as failed; the last chunk, accepted, acknowledges the snapshot. -/
def sendChunk (snap : Snapshot) (count : Nat) (key : Option Rsa.PublicKey)
    (deliver : σ → Envelope → Bool × σ) (acc : Nat × Readings × σ) (ic : List Record × Nat) :
    Nat × Readings × σ :=
  let (failed, r, st) := acc
  let (chunk, i) := ic
  match Envelope.sealBatch chunk key with
  | .error _ => (failed + 1, r, st)
  | .ok env =>
    let (ok, st) := deliver st env
    if ok then (failed, if i + 1 == count then r.acknowledge snap else r, st)
    else (failed + 1, r, st)

/-- Sends the current snapshot in chunks through `deliver`, which answers whether the
transport accepted an envelope. -/
def report (r : Readings) (signer : Signer) (key : Option Rsa.PublicKey)
    (deliver : σ → Envelope → Bool × σ) (st : σ) : ReportSummary × Readings × σ :=
  let snap := r.snapshot
  let records := snap.records signer
  let chunks := chunksOf chunkSize records
  let (failed, r, st) := chunks.zipIdx.foldl (sendChunk snap chunks.length key deliver) (0, r, st)
  (⟨chunks.length, failed, records.length⟩, r, st)

end Telemetry

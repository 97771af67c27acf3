import Mathlib
import Telemetry.Proofs.Server.Requests
import Telemetry.Proofs.Server.Recovery
import Telemetry.Proofs.Disk.Rewrite

/-
  With every ingestion written at once, the snapshot file mirrors the store.

  A service syncs to a path when it writes every ingestion at once, its backends are the ones
  the server sets up with a snapshot file at that path, and the disk lets that file be
  replaced (`Service.SyncsTo`). The file mirrors the store when it holds the JSON text of
  the store's signed records (`Service.Mirrors`); read back, it gives those records
  whenever their values read back (`Service.Mirrors.read_records`).

  A flush then writes the file through (`Service.SyncsTo.flush`), and the disk it leaves
  takes the next write (`Disk.writable_of_replace`). So an update that succeeds leaves the
  file mirroring the new store (`Service.SyncsTo.mirrors_serve`); any other request
  changes nothing (`Service.serve_eq_of_not_ingested`). Both facts hold at every state of a
  run (`Service.SyncsTo.serveAll`), and the mirror, once made, is kept by every later step
  (`Service.Mirrors.serveAll`). A service built with a zero store interval and a store
  file, on a disk that takes the file, syncs to it (`Service.syncsTo_build`).
-/

namespace Telemetry

/-! ## Writing the snapshot file -/

theorem Volume.disk_write_file (v : Volume) (path : String) (rs : List Record) :
    (v.write (.file path) rs).2.disk = (v.disk.replace path (Record.listToJsonText rs).toUTF8).1 := by
  rw [Volume.write_file]
  split <;> rename_i h <;> rw [h]

/-- With the backends the server sets up, a write leaves the disk as the file's replacement
does: a database write touches no disk. -/
theorem Persistence.disk_writeAll_of (db : Option (DatabaseId × Bool)) (path : String)
    (v : Volume) (rs : List Record) :
    ((Persistence.of db (some path)).writeAll v rs).disk =
      (v.disk.replace path (Record.listToJsonText rs).toUTF8).1 := by
  cases db with
  | none => simp [Persistence.of, Persistence.writeAll, Volume.disk_write_file]
  | some d =>
    simp [Persistence.of, Persistence.writeAll, Volume.disk_write_file,
      Volume.disk_write_database]

namespace Service

/-- The snapshot file at the path holds the JSON text of the store's signed records. -/
def Mirrors (path : String) (s : Service) : Prop :=
  s.volume.disk.read path = .ok (Record.listToJsonText s.snapshot).toUTF8

/-- Every ingestion is written at once, to the backends the server sets up with a snapshot
file at the path, on a disk that lets the file be replaced. -/
structure SyncsTo (s : Service) (path : String) : Prop where
  syncWrite : s.syncWrite = true
  backends : ∃ db, s.persistence = Persistence.of db (some path)
  writable : s.volume.disk.Writable path

variable {s : Service} {path : String}

/-- A mirroring file reads back as the store's records, when their values read back. -/
theorem Mirrors.read_records (h : Mirrors path s) (hrs : ∀ r ∈ s.snapshot, r.ValuesReadBack) :
    s.volume.read (.file path) = .ok s.snapshot :=
  Volume.read_file_of_text h hrs

theorem SyncsTo.with_store (h : s.SyncsTo path) (store : Store) :
    ({ s with store } : Service).SyncsTo path :=
  ⟨h.syncWrite, h.backends, h.writable⟩

/-- A flush writes the file through and leaves it writable. -/
theorem SyncsTo.flush (h : s.SyncsTo path) : s.flush.SyncsTo path ∧ Mirrors path s.flush := by
  obtain ⟨db, hp⟩ := h.backends
  obtain ⟨d', hrep⟩ := h.writable (Record.listToJsonText s.snapshot).toUTF8
  have hempty : s.persistence.isEmpty = false := by
    cases db <;> simp [hp, Persistence.of, Persistence.isEmpty]
  -- the flush replaced the file, and nothing else on the disk
  have hdisk : s.flush.volume.disk = d' := by
    rw [flush_eq hempty, hp]
    simp only
    rw [Persistence.disk_writeAll_of, hrep]
  refine ⟨⟨?_, ?_, ?_⟩, ?_⟩
  · rw [flush_eq hempty]
    exact h.syncWrite
  · rw [persistence_flush]
    exact h.backends
  · rw [hdisk]
    exact Disk.writable_of_replace hrep
  · rw [Mirrors, hdisk, flush_eq hempty]
    exact Disk.read_of_replace hrep

theorem SyncsTo.persistAfterIngest (h : s.SyncsTo path) : s.persistAfterIngest = s.flush := by
  simp [Service.persistAfterIngest, h.syncWrite]

/-- An update that succeeded leaves the file mirroring the new store. -/
theorem SyncsTo.mirrors_serve (h : s.SyncsTo path) {req : Request}
    (hing : req.ingests = true ∧ (s.serve req).1.succeeded = true) :
    (s.serve req).2.SyncsTo path ∧ Mirrors path (s.serve req).2 := by
  obtain ⟨store, hs⟩ := serve_of_ingested hing
  have hstore := h.with_store store
  rw [hs, hstore.persistAfterIngest]
  exact hstore.flush

/-- Serving keeps the service syncing to the file. -/
theorem SyncsTo.serve (h : s.SyncsTo path) (req : Request) : (s.serve req).2.SyncsTo path := by
  by_cases hing : req.ingests = true ∧ (s.serve req).1.succeeded = true
  · exact (h.mirrors_serve hing).1
  · rw [serve_eq_of_not_ingested hing]
    exact h

theorem SyncsTo.serveAll (h : s.SyncsTo path) (reqs : List Request) :
    (s.serveAll reqs).SyncsTo path := by
  induction reqs generalizing s with
  | nil => exact h
  | cons r rs ih => exact ih (h.serve r)

/-- Every step keeps the mirror: an update that succeeds rewrites it, anything else
changes nothing. -/
theorem Mirrors.serve (h : s.SyncsTo path) (hm : Mirrors path s) (req : Request) :
    Mirrors path (s.serve req).2 := by
  by_cases hing : req.ingests = true ∧ (s.serve req).1.succeeded = true
  · exact (h.mirrors_serve hing).2
  · rw [serve_eq_of_not_ingested hing]
    exact hm

theorem Mirrors.serveAll (h : s.SyncsTo path) (hm : Mirrors path s) (reqs : List Request) :
    Mirrors path (s.serveAll reqs) := by
  -- the mirror and the sync mode are carried together along the run
  induction reqs generalizing s with
  | nil => exact hm
  | cons r rs ih => exact ih (h.serve r) (hm.serve h r)

theorem serveAll_append_cons (s : Service) (pre : List Request) (req : Request)
    (post : List Request) :
    s.serveAll (pre ++ req :: post) = ((s.serveAll pre).serve req).2.serveAll post := by
  simp [serveAll, List.foldl_append]

/-- A service built with a zero store interval and a store file syncs to the file, when
the disk it is built on lets the file be replaced. -/
theorem syncsTo_build {settings : ServerSettings} {v : Volume}
    (hbuild : build settings v = .ok s) (hzero : settings.storeInterval.isZero = true)
    (hfile : settings.storeFile = some path) (hw : s.volume.disk.Writable path) :
    s.SyncsTo path := by
  refine ⟨?_, hfile ▸ backends_build hbuild, hw⟩
  obtain ⟨k, -, hs⟩ := Except.bind_eq_ok.1 hbuild
  rw [← Except.pure_eq_ok.1 hs]
  exact hzero

/-- **With every ingestion written at once, the snapshot file mirrors the store.** Take a
service built with a zero store interval and a store file whose writes go through, and any
run of requests through both bindings. A request that is no update, or fails, changes
nothing. From the first update that succeeds on, the file holds the JSON text of the
store's signed records at every later state of the run. -/
theorem sync_write_mirrors {settings : ServerSettings} {v : Volume}
    (hbuild : build settings v = .ok s) (hzero : settings.storeInterval.isZero = true)
    (hfile : settings.storeFile = some path) (hw : s.volume.disk.Writable path) :
    (∀ (pre : List Request) (req : Request),
      ¬(req.ingests = true ∧ ((s.serveAll pre).serve req).1.succeeded = true) →
      ((s.serveAll pre).serve req).2 = s.serveAll pre) ∧
    (∀ (pre : List Request) (req : Request) (post : List Request), req.ingests = true →
      ((s.serveAll pre).serve req).1.succeeded = true →
      Mirrors path (s.serveAll (pre ++ req :: post))) := by
  have hsync := syncsTo_build hbuild hzero hfile hw
  refine ⟨fun pre req h => serve_eq_of_not_ingested h, fun pre req post hing hok => ?_⟩
  -- the update at the end of `pre` makes the mirror, and the rest of the run keeps it
  have hupdate := (hsync.serveAll pre).mirrors_serve ⟨hing, hok⟩
  rw [serveAll_append_cons]
  exact hupdate.2.serveAll hupdate.1 post

/-- A server that writes every ingestion at once to `metrics.json`, with nothing else set. -/
def syncSettings : ServerSettings :=
  { address := "localhost:8080"
    grpcAddress := none
    storeInterval := ⟨0, 0⟩
    storeFile := some "metrics.json"
    restore := false
    key := none
    databaseDsn := none
    cryptoKey := none
    trustedSubnet := none
    requireHash := false }

/-- A counter update through the gRPC binding. -/
def pollCountUpdate : Request := .rpc (fun _ => none) (.update "counter" "PollCount" "5")

/-- The volume a previous run left: an empty snapshot written to `metrics.json`. -/
def previousVolume : Volume := { disk := (({} : Disk).replace "metrics.json" "[]".toUTF8).1 }

theorem poll_count_update_mirrored :
    ∃ s, build syncSettings previousVolume = .ok s ∧ syncSettings.storeInterval.isZero = true ∧
      syncSettings.storeFile = some "metrics.json" ∧ s.volume.disk.Writable "metrics.json" ∧
      Mirrors "metrics.json" (s.serveAll [pollCountUpdate]) := by
  have hfirst : ({} : Disk).replace "metrics.json" "[]".toUTF8 = (previousVolume.disk, none) :=
    Prod.ext rfl (by decide +kernel)
  have hbuild : build syncSettings previousVolume = .ok
      { syncWrite := true, persistence := ⟨[.file "metrics.json"]⟩, volume := previousVolume } :=
    rfl
  have hw := Disk.writable_of_replace hfirst
  exact ⟨_, hbuild, rfl, rfl, hw,
    (sync_write_mirrors hbuild rfl rfl hw).2 [] pollCountUpdate [] rfl (by decide)⟩

end Service

end Telemetry

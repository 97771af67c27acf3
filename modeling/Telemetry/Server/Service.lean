import Telemetry.Envelope
import Telemetry.Server.Settings
import Telemetry.Storage.Backend
import Telemetry.Store.Basic

/-
  The metrics service: the operations both network bindings share.

  A service holds the store, the hash policy, the private key for encrypted bodies, the
  snapshot backends, the trusted subnet and whether every ingestion is persisted at once; it
  also carries the volume its backends write to. It is built from the server settings: the
  database backend comes first when its name opens, then the snapshot file; a configured key
  file must hold a private key.

  An origin is trusted when no subnet is configured, or when its trimmed text is an address
  inside the subnet. Ingesting JSON opens the envelope first; an ingested record is echoed
  back as the stored value, signed. A flush writes the signed snapshot to every backend.
-/

namespace Telemetry

/-- The shared state of the server. -/
structure Service where
  store : Store := {}
  integrity : Integrity := {}
  key : Option Rsa.PrivateKey := none
  persistence : Persistence := {}
  trustedSubnet : Option IpNetwork := none
  syncWrite : Bool := false
  volume : Volume := {}

namespace Service

/-- The backends of the settings: the database when it opens, then the snapshot file. -/
def openBackends (settings : ServerSettings) (v : Volume) : Persistence × Volume :=
  let (db, v) := match settings.databaseDsn with
    | some dsn => match v.openDatabase dsn with
      | (.ok b, v) => ([b], v)
      | (.error _, v) => ([], v)
    | none => ([], v)
  let file := match settings.storeFile with
    | some path => [Backend.file path]
    | none => []
  (⟨db ++ file⟩, v)

/-- Reads the private key named by the settings. -/
def loadKey (settings : ServerSettings) (v : Volume) : Except String (Option Rsa.PrivateKey) :=
  match settings.cryptoKey with
  | none => .ok none
  | some path =>
    let failure := "Failed to load crypto key '" ++ path ++ "'"
    match v.disk.read path with
    | .error _ => .error failure
    | .ok bytes =>
      match (Utf8.decode? bytes.toList).bind Rsa.PrivateKey.ofPem? with
      | some k => .ok (some k)
      | none => .error failure

/-- Builds the service of the settings over a volume. -/
def build (settings : ServerSettings) (v : Volume) : Except String Service := do
  let (persistence, v) := openBackends settings v
  let key ← loadKey settings v
  pure {
    integrity := ⟨Signer.new settings.key, settings.requireHash⟩
    key, persistence
    trustedSubnet := settings.trustedSubnet
    syncWrite := settings.storeInterval.isZero
    volume := v }

/-- The signer of outgoing records. -/
def signer (s : Service) : Signer := s.integrity.signer

/-- Accepts the claimed origin, or refuses it as outside the trusted subnet. -/
def checkOrigin (s : Service) (claimed : Option String) : Except MetricError Unit :=
  match s.trustedSubnet with
  | none => .ok ()
  | some subnet =>
    let origin := Text.trim (claimed.getD "")
    match IpAddr.read? origin with
    | some ip => if subnet.contains ip then .ok () else .error (.ipNotAllowed origin)
    | none => .error (.ipNotAllowed origin)

/-- Runs an operation of the store: its answer, with the service holding the store it
leaves. The store is all that the service's operations change. -/
def withStore {α : Type} (s : Service) (r : Except MetricError (α × Store)) :
    Except MetricError (α × Service) :=
  r.map fun (v, store) => (v, { s with store })

/-- Ingests a value given as text. -/
def update (s : Service) (tag name text : String) : Except MetricError (Value × Service) :=
  s.withStore (s.store.ingestOne tag name text)

/-- Ingests one enveloped record; answers the stored value as a signed record. -/
def updateJson (s : Service) (body : ByteArray) (h : Headers) :
    Except MetricError (Record × Service) := do
  let r ← Envelope.decodeRecord body h s.key
  s.withStore ((s.store.ingestRecord r s.integrity).map fun (v, store) =>
    (v.toRecord r.id s.signer, store))

/-- Ingests an enveloped batch; answers the number of distinct names. -/
def updatesJson (s : Service) (body : ByteArray) (h : Headers) :
    Except MetricError (Nat × Service) := do
  let rs ← Envelope.decodeBatch body h s.key
  s.withStore (s.store.ingestBatch rs s.integrity)

/-- The display text of a stored value. -/
def value (s : Service) (tag name : String) : Except MetricError String :=
  (s.store.get tag name).map Value.display

/-- Answers an enveloped `{id, type}` query with the signed record. -/
def valueJson (s : Service) (body : ByteArray) (h : Headers) : Except MetricError Record := do
  let q ← Envelope.decodeRecord body h s.key
  let v ← s.store.get q.type q.id
  pure (v.toRecord q.id s.signer)

/-- Succeeds when a database backend answers. -/
def ping (s : Service) : Except MetricError Unit :=
  if s.persistence.ping then .ok () else .error (.unavailable "no database backend answered")

/-- The lines `name = display`, in no particular order. -/
def list (s : Service) : List String := s.store.listing

/-- The signed records of the store. -/
def snapshot (s : Service) : List Record := s.store.snapshot s.signer

/-- Replaces the store by what the readable backends hold; answers the number of names. -/
def restore (s : Service) : Nat × Service :=
  let store := Store.ofRecords (s.persistence.restore s.volume)
  (store.size, { s with store })

/-- Restores at start when the settings ask for it. -/
def restoreOnStart (s : Service) (settings : ServerSettings) : Nat × Service :=
  if settings.restore then s.restore else (0, s)

/-- Writes the signed snapshot to every backend. -/
def flush (s : Service) : Service :=
  if s.persistence.isEmpty then s
  else { s with volume := s.persistence.writeAll s.volume s.snapshot }

/-- After a successful ingestion: flushes when every ingestion is persisted at once. -/
def persistAfterIngest (s : Service) : Service :=
  if s.syncWrite then s.flush else s

end Service

end Telemetry

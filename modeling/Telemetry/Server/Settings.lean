import Telemetry.Net.Address
import Telemetry.Settings.File
import Telemetry.Settings.Layer

/-
  The server's settings, from layers of sources.

  Each source (environment, command line, settings file) gives a layer in which every field
  may be unset. Layers are stacked highest first, and a field takes the first set value;
  text fields then count as unset when they are blank. Unset fields take the defaults:
  listen on `localhost:8080`, back up every 300 s to `/tmp/devops-metrics-db.json`, restore
  at start, and do not require hashes. A set but empty snapshot path turns the file backup
  off. The trusted subnet is read from its trimmed text.

  Loading reads the environment, then the command line, then the file named by `CONFIG`
  (when not blank) or by `-c`, and stacks them in that order.
-/

namespace Telemetry

open Settings (nonBlank)

/-- One source's view of the server settings. -/
structure ServerLayer where
  address : Option String := none
  grpcAddress : Option String := none
  storeInterval : Option Duration := none
  storeFile : Option String := none
  restore : Option Bool := none
  key : Option String := none
  databaseDsn : Option String := none
  cryptoKey : Option String := none
  trustedSubnet : Option String := none
  requireHash : Option Bool := none
  deriving DecidableEq, Repr

/-- The server settings in force. -/
structure ServerSettings where
  address : String
  grpcAddress : Option String
  storeInterval : Duration
  storeFile : Option String
  restore : Bool
  key : Option String
  databaseDsn : Option String
  cryptoKey : Option String
  trustedSubnet : Option IpNetwork
  requireHash : Bool
  deriving DecidableEq, Repr

namespace ServerLayer

/-- The field names of a settings file, in order. -/
def fieldNames : List String :=
  ["address", "grpc_address", "store_interval", "store_file", "restore", "key",
    "database_dsn", "crypto_key", "trusted_subnet", "require_hash"]

/-- A layer from the values of its fields, in the order of `fieldNames`. -/
def ofFields : List FieldValue → Option ServerLayer
  | [address, grpc, interval, file, restore, key, dsn, crypto, subnet, requireHash] => do
    pure {
      address := ← address.text?
      grpcAddress := ← grpc.text?
      storeInterval := ← interval.duration?
      storeFile := ← file.text?
      restore := ← restore.flag?
      key := ← key.text?
      databaseDsn := ← dsn.text?
      cryptoKey := ← crypto.text?
      trustedSubnet := ← subnet.text?
      requireHash := ← requireHash.flag? }
  | _ => none

/-- The layer of the environment, by variable name. -/
def ofEnv (lookup : String → Option String) : Except String ServerLayer := do
  let storeInterval ← Settings.labelled Duration.parse "STORE_INTERVAL" (lookup "STORE_INTERVAL")
  let restore ← Settings.labelled parseFlag "RESTORE" (lookup "RESTORE")
  let requireHash ← Settings.labelled parseFlag "REQUIRE_HASH" (lookup "REQUIRE_HASH")
  pure {
    address := lookup "ADDRESS"
    grpcAddress := lookup "GRPC_ADDRESS"
    storeInterval, storeFile := lookup "STORE_FILE", restore
    key := lookup "KEY"
    databaseDsn := lookup "DATABASE_DSN"
    cryptoKey := lookup "CRYPTO_KEY"
    trustedSubnet := lookup "TRUSTED_SUBNET"
    requireHash }

/-- The options of the server's command line. -/
def options : List OptionSpec :=
  [⟨some 'a', "address", false⟩, ⟨some 'g', "grpc-address", false⟩,
    ⟨some 'i', "store-interval", false⟩, ⟨some 'f', "store-file", false⟩,
    ⟨some 'r', "restore", false⟩, ⟨some 'k', "key", false⟩,
    ⟨some 'd', "database-dsn", false⟩, ⟨none, "crypto-key", false⟩,
    ⟨some 't', "trusted-subnet", false⟩, ⟨none, "require-hash", false⟩,
    ⟨some 'c', "config", true⟩]

/-- The layer of the options given on the command line. -/
def ofOptions (given : List (String × String)) : Except String ServerLayer := do
  let opt (name : String) := given.lookup name
  let storeInterval ← Settings.labelled Duration.parse "--store-interval" (opt "store-interval")
  let restore ← Settings.labelled parseFlag "--restore" (opt "restore")
  let requireHash ← Settings.labelled parseFlag "--require-hash" (opt "require-hash")
  pure {
    address := opt "address"
    grpcAddress := opt "grpc-address"
    storeInterval, storeFile := opt "store-file", restore
    key := opt "key"
    databaseDsn := opt "database-dsn"
    cryptoKey := opt "crypto-key"
    trustedSubnet := opt "trusted-subnet"
    requireHash }

/-- Each field from the upper layer when set there, else from the lower. -/
def overlay (upper lower : ServerLayer) : ServerLayer where
  address := upper.address <|> lower.address
  grpcAddress := upper.grpcAddress <|> lower.grpcAddress
  storeInterval := upper.storeInterval <|> lower.storeInterval
  storeFile := upper.storeFile <|> lower.storeFile
  restore := upper.restore <|> lower.restore
  key := upper.key <|> lower.key
  databaseDsn := upper.databaseDsn <|> lower.databaseDsn
  cryptoKey := upper.cryptoKey <|> lower.cryptoKey
  trustedSubnet := upper.trustedSubnet <|> lower.trustedSubnet
  requireHash := upper.requireHash <|> lower.requireHash

end ServerLayer

namespace ServerSettings

/-- Where snapshots go when nothing says otherwise. -/
def defaultStoreFile : String := "/tmp/devops-metrics-db.json"

/-- The settings of a stack of layers, highest first. -/
def resolve (layers : List ServerLayer) : Except String ServerSettings := do
  let m := layers.foldr ServerLayer.overlay {}
  let trustedSubnet ← match nonBlank m.trustedSubnet with
    | none => pure none
    | some cidr => match IpNetwork.read? (Text.trim cidr) with
      | some n => pure (some n)
      | none => throw ("invalid trusted subnet '" ++ cidr ++ "'")
  pure {
    address := (nonBlank m.address).getD "localhost:8080"
    grpcAddress := nonBlank m.grpcAddress
    storeInterval := m.storeInterval.getD (Duration.ofSecs 300)
    storeFile := match m.storeFile with
      | some path => nonBlank (some path)
      | none => some defaultStoreFile
    restore := m.restore.getD true
    key := nonBlank m.key
    databaseDsn := nonBlank m.databaseDsn
    cryptoKey := nonBlank m.cryptoKey
    trustedSubnet
    requireHash := m.requireHash.getD false }

/-- Loads the settings from the environment, the command line and a settings file. -/
def load (disk : Disk) (lookup : String → Option String) (args : List String) :
    Except Settings.LoadError ServerSettings := do
  let given ← (CommandLine.parse ServerLayer.options args).mapError .args
  let env ← (ServerLayer.ofEnv lookup).mapError .message
  let flags ← (ServerLayer.ofOptions given).mapError .message
  let file ← match Settings.configPath lookup given with
    | some p => (SettingsFile.load disk p ServerLayer.fieldNames ServerLayer.ofFields).mapError .message
    | none => pure {}
  (resolve [env, flags, file]).mapError .message

/-- One line per setting, `name: value`, with `-` for an unset one. -/
def summary (s : ServerSettings) : List String :=
  let opt : Option String → String := fun o => o.getD "-"
  [("address", s.address), ("grpc_address", opt s.grpcAddress),
    ("store_interval", s.storeInterval.text), ("store_file", opt s.storeFile),
    ("restore", toString s.restore), ("key", opt s.key),
    ("database_dsn", opt s.databaseDsn), ("crypto_key", opt s.cryptoKey),
    ("trusted_subnet", opt (s.trustedSubnet.map IpNetwork.text)),
    ("require_hash", toString s.requireHash)].map fun (k, v) => k ++ ": " ++ v

end ServerSettings

end Telemetry

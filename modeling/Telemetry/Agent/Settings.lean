import Telemetry.Agent.Transport
import Telemetry.Settings.File
import Telemetry.Settings.Layer

/-
  The agent's settings, from layers of sources stacked as for the server.

  Unset fields take the defaults: report to `localhost:8080` over HTTP (gRPC at
  `localhost:3200`) every 10 s, poll every 2 s, and give each send 10 s. Both intervals must
  be positive, which is checked before the transport name is read. The target is the
  address of the chosen transport.
-/

namespace Telemetry

open Settings (nonBlank)

/-- One source's view of the agent settings. -/
structure AgentLayer where
  address : Option String := none
  reportInterval : Option Duration := none
  pollInterval : Option Duration := none
  key : Option String := none
  cryptoKey : Option String := none
  transport : Option String := none
  grpcAddress : Option String := none
  realIp : Option String := none
  requestTimeout : Option Duration := none
  deriving DecidableEq, Repr

/-- The agent settings in force. -/
structure AgentSettings where
  address : String
  reportInterval : Duration
  pollInterval : Duration
  key : Option String
  cryptoKey : Option String
  transport : Transport
  grpcAddress : String
  realIp : Option String
  requestTimeout : Duration
  deriving DecidableEq, Repr

namespace AgentLayer

/-- The field names of a settings file, in order. -/
def fieldNames : List String :=
  ["address", "report_interval", "poll_interval", "key", "crypto_key", "transport",
    "grpc_address", "real_ip", "request_timeout"]

/-- A layer from the values of its fields, in the order of `fieldNames`. -/
def ofFields : List FieldValue → Option AgentLayer
  | [address, report, poll, key, crypto, transport, grpc, realIp, timeout] => do
    pure {
      address := ← address.text?
      reportInterval := ← report.duration?
      pollInterval := ← poll.duration?
      key := ← key.text?
      cryptoKey := ← crypto.text?
      transport := ← transport.text?
      grpcAddress := ← grpc.text?
      realIp := ← realIp.text?
      requestTimeout := ← timeout.duration? }
  | _ => none

/-- A layer from text settings looked up by name, each duration failing under `label`. -/
def ofLookup (get : String → Option String) (label : String → String) :
    Except String AgentLayer := do
  let report ← Settings.labelled Duration.parse (label "report-interval") (get "report-interval")
  let poll ← Settings.labelled Duration.parse (label "poll-interval") (get "poll-interval")
  let timeout ← Settings.labelled Duration.parse (label "request-timeout") (get "request-timeout")
  pure {
    address := get "address"
    reportInterval := report
    pollInterval := poll
    key := get "key"
    cryptoKey := get "crypto-key"
    transport := get "transport"
    grpcAddress := get "grpc-address"
    realIp := get "real-ip"
    requestTimeout := timeout }

/-- The layer of the environment, by variable name. -/
def ofEnv (lookup : String → Option String) : Except String AgentLayer :=
  ofLookup (fun n => lookup (Settings.envName n)) Settings.envName

/-- The options of the agent's command line. -/
def options : List OptionSpec :=
  [⟨some 'a', "address", false⟩, ⟨some 'r', "report-interval", false⟩,
    ⟨some 'p', "poll-interval", false⟩, ⟨some 'k', "key", false⟩,
    ⟨none, "crypto-key", false⟩, ⟨none, "transport", false⟩,
    ⟨some 'g', "grpc-address", false⟩, ⟨none, "real-ip", false⟩,
    ⟨none, "request-timeout", false⟩, ⟨some 'c', "config", true⟩]

/-- The layer of the options given on the command line. -/
def ofOptions (given : List (String × String)) : Except String AgentLayer :=
  ofLookup (fun n => given.lookup n) ("--" ++ ·)

/-- Each field from the upper layer when set there, else from the lower. -/
def overlay (upper lower : AgentLayer) : AgentLayer where
  address := upper.address <|> lower.address
  reportInterval := upper.reportInterval <|> lower.reportInterval
  pollInterval := upper.pollInterval <|> lower.pollInterval
  key := upper.key <|> lower.key
  cryptoKey := upper.cryptoKey <|> lower.cryptoKey
  transport := upper.transport <|> lower.transport
  grpcAddress := upper.grpcAddress <|> lower.grpcAddress
  realIp := upper.realIp <|> lower.realIp
  requestTimeout := upper.requestTimeout <|> lower.requestTimeout

end AgentLayer

namespace AgentSettings

/-- The settings of a stack of layers, highest first. -/
def resolve (layers : List AgentLayer) : Except String AgentSettings := do
  let m := layers.foldr AgentLayer.overlay {}
  let reportInterval := m.reportInterval.getD (Duration.ofSecs 10)
  let pollInterval := m.pollInterval.getD (Duration.ofSecs 2)
  if reportInterval.isZero || pollInterval.isZero then
    throw "report and poll intervals must be positive"
  let transport ← match nonBlank m.transport with
    | some t => Transport.parse t
    | none => pure .http
  pure {
    address := (nonBlank m.address).getD "localhost:8080"
    reportInterval, pollInterval
    key := nonBlank m.key
    cryptoKey := nonBlank m.cryptoKey
    transport
    grpcAddress := (nonBlank m.grpcAddress).getD "localhost:3200"
    realIp := nonBlank m.realIp
    requestTimeout := m.requestTimeout.getD (Duration.ofSecs 10) }

/-- The server address for the chosen transport. -/
def target (s : AgentSettings) : String :=
  match s.transport with
  | .http => s.address
  | .grpc => s.grpcAddress

/-- Loads the settings from the environment, the command line and a settings file. -/
def load (disk : Disk) (lookup : String → Option String) (args : List String) :
    Except Settings.LoadError AgentSettings := do
  let given ← (CommandLine.parse AgentLayer.options args).mapError .args
  let env ← (AgentLayer.ofEnv lookup).mapError .message
  let flags ← (AgentLayer.ofOptions given).mapError .message
  let file ← match Settings.configPath lookup given with
    | some p => (SettingsFile.load disk p AgentLayer.fieldNames AgentLayer.ofFields).mapError .message
    | none => pure {}
  (resolve [env, flags, file]).mapError .message

/-- One line per setting, `name: value`, with `-` for an unset one. -/
def summary (s : AgentSettings) : List String :=
  let opt : Option String → String := fun o => o.getD "-"
  [("address", s.address), ("report_interval", s.reportInterval.text),
    ("poll_interval", s.pollInterval.text), ("key", opt s.key),
    ("crypto_key", opt s.cryptoKey), ("transport", s.transport.name),
    ("grpc_address", s.grpcAddress), ("real_ip", opt s.realIp),
    ("request_timeout", s.requestTimeout.text), ("target", s.target)].map
    fun (k, v) => k ++ ": " ++ v

end AgentSettings

end Telemetry

import Mathlib
import Telemetry.Server.Settings
import Telemetry.Agent.Settings
import Telemetry.Proofs.Except

/-
  How settings load from their three sources. Each source reads on its own into a layer: the
  environment and the command line look each field up by name and read its duration or flag
  (`ofEnv_eq_ok`, `ofOptions_eq_ok`), and the settings file, when one is named, is read and
  decoded whole. `resolve_eq_ok` then says what a stack of three layers gives: each field the
  first value set, highest layer first, with blank texts unset afterwards. Put together,
  `ServerSettings.load_eq_ok_iff` and `AgentSettings.load_eq_ok_iff` state each program's
  load as one law over the raw texts of its sources (`LoadLaw`).
-/

namespace Telemetry

namespace Settings

variable {α L : Type}

/-- Every text a source gives for a typed setting reads. -/
def Reads (read : String → Except SettingError α) (v : Option String) : Prop :=
  ∀ t, v = some t → ∃ a, read t = .ok a

/-- What a source gives for a typed setting: its text, read; `none` when it gives none. -/
def reading (read : String → Except SettingError α) (v : Option String) : Option α :=
  v.bind fun t => (read t).toOption

theorem labelled_eq_ok {read : String → Except SettingError α} {label : String}
    {v : Option String} {r : Option α} :
    labelled read label v = .ok r ↔ Reads read v ∧ r = reading read v := by
  cases v with
  | none => simp [labelled, Reads, reading, eq_comm]
  | some t =>
    cases h : read t <;> simp [labelled, Reads, reading, h, Except.toOption, eq_comm]

/-- The layer a settings file gives: nothing when none is named, else the named file, read
and decoded. -/
def FileGives (disk : Disk) (path : Option String) (names : List String)
    (decode : List FieldValue → Option L) (empty file : L) : Prop :=
  (path = none ∧ file = empty) ∨
    ∃ p, path = some p ∧ SettingsFile.load disk p names decode = .ok file

end Settings

open Settings (nonBlank Reads reading FileGives)

namespace ServerLayer

theorem ofEnv_eq_ok {lookup : String → Option String} {env : ServerLayer} :
    ofEnv lookup = .ok env ↔
      Reads Duration.parse (lookup "STORE_INTERVAL") ∧ Reads parseFlag (lookup "RESTORE") ∧
        Reads parseFlag (lookup "REQUIRE_HASH") ∧
        env =
          { address := lookup "ADDRESS", grpcAddress := lookup "GRPC_ADDRESS",
            storeInterval := reading Duration.parse (lookup "STORE_INTERVAL"),
            storeFile := lookup "STORE_FILE", restore := reading parseFlag (lookup "RESTORE"),
            key := lookup "KEY", databaseDsn := lookup "DATABASE_DSN",
            cryptoKey := lookup "CRYPTO_KEY", trustedSubnet := lookup "TRUSTED_SUBNET",
            requireHash := reading parseFlag (lookup "REQUIRE_HASH") } := by
  unfold ofEnv
  simp only [Except.bind_eq_ok, Except.pure_eq_ok, Settings.labelled_eq_ok]
  constructor
  · rintro ⟨_, ⟨h₁, rfl⟩, _, ⟨h₂, rfl⟩, _, ⟨h₃, rfl⟩, rfl⟩
    exact ⟨h₁, h₂, h₃, rfl⟩
  · rintro ⟨h₁, h₂, h₃, rfl⟩
    exact ⟨_, ⟨h₁, rfl⟩, _, ⟨h₂, rfl⟩, _, ⟨h₃, rfl⟩, rfl⟩

theorem ofOptions_eq_ok {given : List (String × String)} {flags : ServerLayer} :
    ofOptions given = .ok flags ↔
      Reads Duration.parse (given.lookup "store-interval") ∧
        Reads parseFlag (given.lookup "restore") ∧ Reads parseFlag (given.lookup "require-hash") ∧
        flags =
          { address := given.lookup "address", grpcAddress := given.lookup "grpc-address",
            storeInterval := reading Duration.parse (given.lookup "store-interval"),
            storeFile := given.lookup "store-file",
            restore := reading parseFlag (given.lookup "restore"), key := given.lookup "key",
            databaseDsn := given.lookup "database-dsn", cryptoKey := given.lookup "crypto-key",
            trustedSubnet := given.lookup "trusted-subnet",
            requireHash := reading parseFlag (given.lookup "require-hash") } := by
  unfold ofOptions
  simp only [Except.bind_eq_ok, Except.pure_eq_ok, Settings.labelled_eq_ok]
  constructor
  · rintro ⟨_, ⟨h₁, rfl⟩, _, ⟨h₂, rfl⟩, _, ⟨h₃, rfl⟩, rfl⟩
    exact ⟨h₁, h₂, h₃, rfl⟩
  · rintro ⟨h₁, h₂, h₃, rfl⟩
    exact ⟨_, ⟨h₁, rfl⟩, _, ⟨h₂, rfl⟩, _, ⟨h₃, rfl⟩, rfl⟩

end ServerLayer

namespace ServerSettings

theorem resolve_eq_ok {e f g : ServerLayer} {s : ServerSettings} :
    resolve [e, f, g] = .ok s ↔
      (∀ cidr, nonBlank (e.trustedSubnet <|> f.trustedSubnet <|> g.trustedSubnet) = some cidr →
        (IpNetwork.read? (Text.trim cidr)).isSome) ∧
      s =
        { address := (nonBlank (e.address <|> f.address <|> g.address)).getD "localhost:8080"
          grpcAddress := nonBlank (e.grpcAddress <|> f.grpcAddress <|> g.grpcAddress)
          storeInterval :=
            (e.storeInterval <|> f.storeInterval <|> g.storeInterval).getD (Duration.ofSecs 300)
          storeFile := (e.storeFile <|> f.storeFile <|> g.storeFile).elim (some defaultStoreFile)
            (fun p => nonBlank (some p))
          restore := (e.restore <|> f.restore <|> g.restore).getD true
          key := nonBlank (e.key <|> f.key <|> g.key)
          databaseDsn := nonBlank (e.databaseDsn <|> f.databaseDsn <|> g.databaseDsn)
          cryptoKey := nonBlank (e.cryptoKey <|> f.cryptoKey <|> g.cryptoKey)
          trustedSubnet := (nonBlank (e.trustedSubnet <|> f.trustedSubnet <|> g.trustedSubnet)).bind
            (fun c => IpNetwork.read? (Text.trim c))
          requireHash := (e.requireHash <|> f.requireHash <|> g.requireHash).getD false } := by
  unfold resolve
  simp only [List.foldr, ServerLayer.overlay, Option.orElse_eq_orElse, Option.orElse_eq_or,
    Option.or_none]
  generalize e.storeFile.or (f.storeFile.or g.storeFile) = sf
  generalize e.trustedSubnet.or (f.trustedSubnet.or g.trustedSubnet) = ts
  cases hn : nonBlank ts with
  | none =>
    cases sf <;>
    · simp only [Except.bind_eq_ok, Except.pure_eq_ok, Option.elim_none, Option.elim_some,
        Option.bind_none, exists_eq_left', reduceCtorEq, false_implies, implies_true, true_and]
      exact eq_comm
  | some cidr =>
    cases hr : IpNetwork.read? (Text.trim cidr) with
    | none =>
      simp only [hr, throw, throwThe, MonadExceptOf.throw, Except.bind_eq_ok, reduceCtorEq,
        false_and, exists_false, false_iff, not_and]
      intro h
      simpa [hr] using h cidr rfl
    | some n =>
      cases sf <;>
      · simp only [Except.bind_eq_ok, Except.pure_eq_ok, Option.elim_none, Option.elim_some,
          Option.bind_some, hr, exists_eq_left', Option.some.injEq, forall_eq', Option.isSome_some,
          true_and]
        exact eq_comm

/-- **The server's load law.** Loading succeeds exactly when the command line parses, every
duration and flag that the environment and the command line give reads (whether a higher
source shadows it or not), the settings file named by a non-blank `CONFIG` or by `-c` reads,
and the winning trusted subnet, when not blank, is a network. Each field then takes its raw
value from the first source that sets it, the environment before the command line before the
file, blank or not; blank texts then count as unset, a blank snapshot path turns the backup
off, and unset fields take their defaults. -/
def LoadLaw (disk : Disk) (lookup : String → Option String) (args : List String)
    (s : ServerSettings) : Prop :=
  ∃ given file, CommandLine.parse ServerLayer.options args = .ok given ∧
    Reads Duration.parse (lookup "STORE_INTERVAL") ∧ Reads parseFlag (lookup "RESTORE") ∧
    Reads parseFlag (lookup "REQUIRE_HASH") ∧
    Reads Duration.parse (given.lookup "store-interval") ∧
    Reads parseFlag (given.lookup "restore") ∧ Reads parseFlag (given.lookup "require-hash") ∧
    FileGives disk (Settings.configPath lookup given) ServerLayer.fieldNames
      ServerLayer.ofFields {} file ∧
    (∀ cidr, nonBlank (lookup "TRUSTED_SUBNET" <|> given.lookup "trusted-subnet" <|>
        file.trustedSubnet) = some cidr → (IpNetwork.read? (Text.trim cidr)).isSome) ∧
    s =
      { address := (nonBlank (lookup "ADDRESS" <|> given.lookup "address" <|>
          file.address)).getD "localhost:8080"
        grpcAddress := nonBlank (lookup "GRPC_ADDRESS" <|> given.lookup "grpc-address" <|>
          file.grpcAddress)
        storeInterval := (reading Duration.parse (lookup "STORE_INTERVAL") <|>
          reading Duration.parse (given.lookup "store-interval") <|>
          file.storeInterval).getD (Duration.ofSecs 300)
        storeFile := (lookup "STORE_FILE" <|> given.lookup "store-file" <|>
          file.storeFile).elim (some defaultStoreFile) (fun p => nonBlank (some p))
        restore := (reading parseFlag (lookup "RESTORE") <|>
          reading parseFlag (given.lookup "restore") <|> file.restore).getD true
        key := nonBlank (lookup "KEY" <|> given.lookup "key" <|> file.key)
        databaseDsn := nonBlank (lookup "DATABASE_DSN" <|> given.lookup "database-dsn" <|>
          file.databaseDsn)
        cryptoKey := nonBlank (lookup "CRYPTO_KEY" <|> given.lookup "crypto-key" <|>
          file.cryptoKey)
        trustedSubnet := (nonBlank (lookup "TRUSTED_SUBNET" <|>
          given.lookup "trusted-subnet" <|> file.trustedSubnet)).bind
            (fun c => IpNetwork.read? (Text.trim c))
        requireHash := (reading parseFlag (lookup "REQUIRE_HASH") <|>
          reading parseFlag (given.lookup "require-hash") <|> file.requireHash).getD false }

theorem load_eq_ok_iff {disk : Disk} {lookup : String → Option String} {args : List String}
    {s : ServerSettings} : load disk lookup args = .ok s ↔ LoadLaw disk lookup args s := by
  unfold load
  simp only [Except.bind_eq_ok, Except.mapError_eq_ok, ServerLayer.ofEnv_eq_ok,
    ServerLayer.ofOptions_eq_ok]
  constructor
  · rintro ⟨given, hg, _, ⟨e₁, e₂, e₃, rfl⟩, _, ⟨f₁, f₂, f₃, rfl⟩, h⟩
    cases hp : Settings.configPath lookup given with
    | none =>
      rw [hp] at h
      simp only [Except.bind_eq_ok, Except.pure_eq_ok, Except.mapError_eq_ok, exists_eq_left'] at h
      obtain ⟨hsub, rfl⟩ := resolve_eq_ok.1 h
      exact ⟨given, {}, hg, e₁, e₂, e₃, f₁, f₂, f₃, .inl ⟨hp, rfl⟩, hsub, rfl⟩
    | some p =>
      rw [hp] at h
      simp only [Except.bind_eq_ok, Except.mapError_eq_ok] at h
      obtain ⟨file, hl, h⟩ := h
      obtain ⟨hsub, rfl⟩ := resolve_eq_ok.1 h
      exact ⟨given, file, hg, e₁, e₂, e₃, f₁, f₂, f₃, .inr ⟨p, hp, hl⟩, hsub, rfl⟩
  · rintro ⟨given, file, hg, e₁, e₂, e₃, f₁, f₂, f₃, hfile, hsub, rfl⟩
    refine ⟨given, hg, _, ⟨e₁, e₂, e₃, rfl⟩, _, ⟨f₁, f₂, f₃, rfl⟩, ?_⟩
    rcases hfile with ⟨hp, rfl⟩ | ⟨p, hp, hl⟩
    · rw [hp]
      simp only [Except.bind_eq_ok, Except.pure_eq_ok, Except.mapError_eq_ok, exists_eq_left']
      exact resolve_eq_ok.2 ⟨hsub, rfl⟩
    · rw [hp]
      simp only [Except.bind_eq_ok, Except.mapError_eq_ok]
      exact ⟨file, hl, resolve_eq_ok.2 ⟨hsub, rfl⟩⟩

end ServerSettings

namespace AgentLayer

/-- The layer of a source that looks its settings up by name, as both the environment and the
command line do. -/
theorem ofLookup_eq_ok {get : String → Option String} {label : String → String}
    {l : AgentLayer} :
    ofLookup get label = .ok l ↔
      Reads Duration.parse (get "report-interval") ∧ Reads Duration.parse (get "poll-interval") ∧
        Reads Duration.parse (get "request-timeout") ∧
        l =
          { address := get "address"
            reportInterval := reading Duration.parse (get "report-interval")
            pollInterval := reading Duration.parse (get "poll-interval")
            key := get "key", cryptoKey := get "crypto-key", transport := get "transport"
            grpcAddress := get "grpc-address", realIp := get "real-ip"
            requestTimeout := reading Duration.parse (get "request-timeout") } := by
  unfold ofLookup
  simp only [Except.bind_eq_ok, Except.pure_eq_ok, Settings.labelled_eq_ok]
  constructor
  · rintro ⟨_, ⟨h₁, rfl⟩, _, ⟨h₂, rfl⟩, _, ⟨h₃, rfl⟩, rfl⟩
    exact ⟨h₁, h₂, h₃, rfl⟩
  · rintro ⟨h₁, h₂, h₃, rfl⟩
    exact ⟨_, ⟨h₁, rfl⟩, _, ⟨h₂, rfl⟩, _, ⟨h₃, rfl⟩, rfl⟩

theorem ofEnv_eq_ok {lookup : String → Option String} {env : AgentLayer} :
    ofEnv lookup = .ok env ↔
      Reads Duration.parse (lookup "REPORT_INTERVAL") ∧
        Reads Duration.parse (lookup "POLL_INTERVAL") ∧
        Reads Duration.parse (lookup "REQUEST_TIMEOUT") ∧
        env =
          { address := lookup "ADDRESS"
            reportInterval := reading Duration.parse (lookup "REPORT_INTERVAL")
            pollInterval := reading Duration.parse (lookup "POLL_INTERVAL")
            key := lookup "KEY", cryptoKey := lookup "CRYPTO_KEY", transport := lookup "TRANSPORT"
            grpcAddress := lookup "GRPC_ADDRESS", realIp := lookup "REAL_IP"
            requestTimeout := reading Duration.parse (lookup "REQUEST_TIMEOUT") } :=
  ofLookup_eq_ok

theorem ofOptions_eq_ok {given : List (String × String)} {flags : AgentLayer} :
    ofOptions given = .ok flags ↔
      Reads Duration.parse (given.lookup "report-interval") ∧
        Reads Duration.parse (given.lookup "poll-interval") ∧
        Reads Duration.parse (given.lookup "request-timeout") ∧
        flags =
          { address := given.lookup "address"
            reportInterval := reading Duration.parse (given.lookup "report-interval")
            pollInterval := reading Duration.parse (given.lookup "poll-interval")
            key := given.lookup "key", cryptoKey := given.lookup "crypto-key"
            transport := given.lookup "transport", grpcAddress := given.lookup "grpc-address"
            realIp := given.lookup "real-ip"
            requestTimeout := reading Duration.parse (given.lookup "request-timeout") } :=
  ofLookup_eq_ok

end AgentLayer

namespace AgentSettings

theorem resolve_eq_ok {e f g : AgentLayer} {s : AgentSettings} :
    resolve [e, f, g] = .ok s ↔
      ((e.reportInterval <|> f.reportInterval <|> g.reportInterval).getD
          (Duration.ofSecs 10)).isZero = false ∧
      ((e.pollInterval <|> f.pollInterval <|> g.pollInterval).getD
          (Duration.ofSecs 2)).isZero = false ∧
      ∃ transport, (nonBlank (e.transport <|> f.transport <|> g.transport)).elim (.ok .http)
          Transport.parse = .ok transport ∧
        s =
          { address := (nonBlank (e.address <|> f.address <|> g.address)).getD "localhost:8080"
            reportInterval := (e.reportInterval <|> f.reportInterval <|> g.reportInterval).getD
              (Duration.ofSecs 10)
            pollInterval := (e.pollInterval <|> f.pollInterval <|> g.pollInterval).getD
              (Duration.ofSecs 2)
            key := nonBlank (e.key <|> f.key <|> g.key)
            cryptoKey := nonBlank (e.cryptoKey <|> f.cryptoKey <|> g.cryptoKey)
            transport
            grpcAddress := (nonBlank (e.grpcAddress <|> f.grpcAddress <|> g.grpcAddress)).getD
              "localhost:3200"
            realIp := nonBlank (e.realIp <|> f.realIp <|> g.realIp)
            requestTimeout := (e.requestTimeout <|> f.requestTimeout <|> g.requestTimeout).getD
              (Duration.ofSecs 10) } := by
  unfold resolve
  simp only [List.foldr, AgentLayer.overlay, Option.orElse_eq_orElse, Option.orElse_eq_or,
    Option.or_none]
  generalize (e.reportInterval.or (f.reportInterval.or g.reportInterval)).getD
    (Duration.ofSecs 10) = report
  generalize (e.pollInterval.or (f.pollInterval.or g.pollInterval)).getD
    (Duration.ofSecs 2) = poll
  generalize e.transport.or (f.transport.or g.transport) = winner
  -- a zero interval fails before the transport is read
  cases hr : report.isZero <;> cases hp : poll.isZero
  case false.false =>
    simp only [Bool.or_false, Bool.false_eq_true, if_false, true_and]
    cases nonBlank winner with
    | none =>
      simp only [Option.elim_none, Except.bind_eq_ok, Except.pure_eq_ok, exists_eq_left',
        Except.ok.injEq]
      exact eq_comm
    | some t =>
      simp only [Option.elim_some, Except.bind_eq_ok, Except.pure_eq_ok]
      constructor <;> rintro ⟨a, h, rfl⟩ <;> exact ⟨a, h, rfl⟩
  all_goals simp [throw, throwThe, MonadExceptOf.throw, bind, Except.bind]

/-- **The agent's load law**, the server's law over the agent's fields: loading succeeds
exactly when the command line parses, every duration that the environment and the command
line give reads, the named settings file reads, the winning report and poll intervals are not
zero, and the winning transport, when not blank, names a transport. -/
def LoadLaw (disk : Disk) (lookup : String → Option String) (args : List String)
    (s : AgentSettings) : Prop :=
  ∃ given file, CommandLine.parse AgentLayer.options args = .ok given ∧
    Reads Duration.parse (lookup "REPORT_INTERVAL") ∧
    Reads Duration.parse (lookup "POLL_INTERVAL") ∧
    Reads Duration.parse (lookup "REQUEST_TIMEOUT") ∧
    Reads Duration.parse (given.lookup "report-interval") ∧
    Reads Duration.parse (given.lookup "poll-interval") ∧
    Reads Duration.parse (given.lookup "request-timeout") ∧
    FileGives disk (Settings.configPath lookup given) AgentLayer.fieldNames
      AgentLayer.ofFields {} file ∧
    ((reading Duration.parse (lookup "REPORT_INTERVAL") <|>
      reading Duration.parse (given.lookup "report-interval") <|>
      file.reportInterval).getD (Duration.ofSecs 10)).isZero = false ∧
    ((reading Duration.parse (lookup "POLL_INTERVAL") <|>
      reading Duration.parse (given.lookup "poll-interval") <|>
      file.pollInterval).getD (Duration.ofSecs 2)).isZero = false ∧
    ∃ transport, (nonBlank (lookup "TRANSPORT" <|> given.lookup "transport" <|>
        file.transport)).elim (.ok .http) Transport.parse = .ok transport ∧
      s =
        { address := (nonBlank (lookup "ADDRESS" <|> given.lookup "address" <|>
            file.address)).getD "localhost:8080"
          reportInterval := (reading Duration.parse (lookup "REPORT_INTERVAL") <|>
            reading Duration.parse (given.lookup "report-interval") <|>
            file.reportInterval).getD (Duration.ofSecs 10)
          pollInterval := (reading Duration.parse (lookup "POLL_INTERVAL") <|>
            reading Duration.parse (given.lookup "poll-interval") <|>
            file.pollInterval).getD (Duration.ofSecs 2)
          key := nonBlank (lookup "KEY" <|> given.lookup "key" <|> file.key)
          cryptoKey := nonBlank (lookup "CRYPTO_KEY" <|> given.lookup "crypto-key" <|>
            file.cryptoKey)
          transport
          grpcAddress := (nonBlank (lookup "GRPC_ADDRESS" <|> given.lookup "grpc-address" <|>
            file.grpcAddress)).getD "localhost:3200"
          realIp := nonBlank (lookup "REAL_IP" <|> given.lookup "real-ip" <|> file.realIp)
          requestTimeout := (reading Duration.parse (lookup "REQUEST_TIMEOUT") <|>
            reading Duration.parse (given.lookup "request-timeout") <|>
            file.requestTimeout).getD (Duration.ofSecs 10) }

theorem load_eq_ok_iff {disk : Disk} {lookup : String → Option String} {args : List String}
    {s : AgentSettings} : load disk lookup args = .ok s ↔ LoadLaw disk lookup args s := by
  unfold load
  simp only [Except.bind_eq_ok, Except.mapError_eq_ok, AgentLayer.ofEnv_eq_ok,
    AgentLayer.ofOptions_eq_ok]
  constructor
  · rintro ⟨given, hg, _, ⟨e₁, e₂, e₃, rfl⟩, _, ⟨f₁, f₂, f₃, rfl⟩, h⟩
    cases hp : Settings.configPath lookup given with
    | none =>
      rw [hp] at h
      simp only [Except.bind_eq_ok, Except.pure_eq_ok, Except.mapError_eq_ok, exists_eq_left'] at h
      obtain ⟨hr, hq, t, ht, rfl⟩ := resolve_eq_ok.1 h
      exact ⟨given, {}, hg, e₁, e₂, e₃, f₁, f₂, f₃, .inl ⟨hp, rfl⟩, hr, hq, t, ht, rfl⟩
    | some p =>
      rw [hp] at h
      simp only [Except.bind_eq_ok, Except.mapError_eq_ok] at h
      obtain ⟨file, hl, h⟩ := h
      obtain ⟨hr, hq, t, ht, rfl⟩ := resolve_eq_ok.1 h
      exact ⟨given, file, hg, e₁, e₂, e₃, f₁, f₂, f₃, .inr ⟨p, hp, hl⟩, hr, hq, t, ht, rfl⟩
  · rintro ⟨given, file, hg, e₁, e₂, e₃, f₁, f₂, f₃, hfile, hr, hq, t, ht, rfl⟩
    refine ⟨given, hg, _, ⟨e₁, e₂, e₃, rfl⟩, _, ⟨f₁, f₂, f₃, rfl⟩, ?_⟩
    rcases hfile with ⟨hp, rfl⟩ | ⟨p, hp, hl⟩
    · rw [hp]
      simp only [Except.bind_eq_ok, Except.pure_eq_ok, Except.mapError_eq_ok, exists_eq_left']
      exact resolve_eq_ok.2 ⟨hr, hq, t, ht, rfl⟩
    · rw [hp]
      simp only [Except.bind_eq_ok, Except.mapError_eq_ok]
      exact ⟨file, hl, resolve_eq_ok.2 ⟨hr, hq, t, ht, rfl⟩⟩

end AgentSettings

/-- **Settings load by one law.** The server's and the agent's settings load exactly as their
load laws say. -/
theorem settings_load_by_precedence :
    (∀ disk lookup args s,
      ServerSettings.load disk lookup args = .ok s ↔ ServerSettings.LoadLaw disk lookup args s) ∧
    (∀ disk lookup args s,
      AgentSettings.load disk lookup args = .ok s ↔ AgentSettings.LoadLaw disk lookup args s) :=
  ⟨fun _ _ _ _ => ServerSettings.load_eq_ok_iff, fun _ _ _ _ => AgentSettings.load_eq_ok_iff⟩

end Telemetry

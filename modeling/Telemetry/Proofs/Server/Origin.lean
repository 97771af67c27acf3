import Mathlib
import Telemetry.Proofs.Server.Requests

/-
  A refused origin changes nothing.

  With a trusted subnet configured, a request's claimed origin is let through when it is
  there and its trimmed text reads as an address inside the subnet (`IpNetwork.admits`);
  a missing origin, one that is no address, and an address outside are refused alike
  (`Service.checkOrigin_of_admits`, `Service.checkOrigin_of_not_admits`).

  The gate sits in two places. The router checks the origin before it looks at the method,
  the parameters or the body, on the updates, on `/ping` and on paths that name no route, so
  there a refused origin is answered 403 whatever else the request holds
  (`Http.respond_of_refused`); the calls `Update`, `UpdateJson`, `UpdatesJson` and `Ping`
  check it first by hand (`Service.call_of_refused`). The queries are not gated: they
  answer as with no subnet at all and keep the service as it was (`Http.respond_of_ungated`,
  `Service.call_of_ungated`). Since only an update that passed the gate changes the service
  (`Service.serve_step`), a refused request leaves it as it was, and the subnet stays
  configured along a run: over any run the refused requests could as well not have been
  sent (`Service.serveAll_filter_admitted`).
-/

namespace Telemetry

/-- The subnet lets a claimed origin through: it is present and, trimmed, an address inside
the subnet. -/
def IpNetwork.admits (n : IpNetwork) : Option String → Bool
  | none => false
  | some text =>
    match IpAddr.read? (Text.trim text) with
    | some ip => n.contains ip
    | none => false

/-- Exactly the updates and the liveness check are gated. -/
theorem Http.Route.gated_iff (route : Route) :
    route.gated = true ↔ route.ingests = true ∨ route = .ping := by
  cases route <;> simp [Route.gated, Route.ingests]

theorem RpcCall.gated_iff (c : RpcCall) : c.gated = true ↔ c.ingests = true ∨ c = .ping := by
  cases c <;> simp [RpcCall.gated, RpcCall.ingests]

namespace Service

variable {s : Service} {subnet : IpNetwork}

/-! ## The origin check -/

theorem checkOrigin_of_admits (hs : s.trustedSubnet = some subnet) {claimed : Option String}
    (h : subnet.admits claimed = true) : s.checkOrigin claimed = .ok () := by
  cases claimed with
  | none => simp [IpNetwork.admits] at h
  | some text =>
    simp only [IpNetwork.admits] at h
    unfold checkOrigin
    split at h
    · next ip hip => simp [hs, hip, h]
    · cases h

/-- A refused origin is named by its trimmed text; a missing one by the empty text. -/
theorem checkOrigin_of_not_admits (hs : s.trustedSubnet = some subnet) {claimed : Option String}
    (h : subnet.admits claimed = false) :
    s.checkOrigin claimed = .error (.ipNotAllowed (Text.trim (claimed.getD ""))) := by
  unfold checkOrigin
  cases claimed with
  | none =>
    have hempty : IpAddr.read? (Text.trim "") = none := by decide
    simp [hs, hempty]
  | some text =>
    simp only [IpNetwork.admits] at h
    split at h
    · next ip hip => simp [hs, hip, h]
    · next hip => simp [hs, hip]

/-- Under a trusted subnet, the origin check passes exactly the origins the subnet admits. -/
theorem checkOrigin_eq_ok_iff (hs : s.trustedSubnet = some subnet) (claimed : Option String) :
    s.checkOrigin claimed = .ok () ↔ subnet.admits claimed = true := by
  constructor
  · intro h
    cases ha : subnet.admits claimed
    · rw [checkOrigin_of_not_admits hs ha] at h
      cases h
    · rfl
  · exact checkOrigin_of_admits hs

/-- The queries read no subnet. -/
theorem value_with_trustedSubnet (s : Service) (t : Option IpNetwork) :
    ({ s with trustedSubnet := t } : Service).value = s.value := rfl

theorem valueJson_with_trustedSubnet (s : Service) (t : Option IpNetwork) :
    ({ s with trustedSubnet := t } : Service).valueJson = s.valueJson := rfl

end Service

/-! ## The router -/

namespace Http

variable {s : Service} {subnet : IpNetwork} {req : HttpRequest}

theorem routeOf_eq (req : HttpRequest) :
    Route.ofPath (String.ofList (req.target.toList.takeWhile fun c => c != '?' && c != '#')) =
      routeOf req := rfl

/-- On a gated route, or a path that names none, a refused origin is answered before the
method, the parameters and the body are looked at. -/
theorem respond_of_refused (hs : s.trustedSubnet = some subnet)
    (hg : (routeOf req).all Route.gated = true)
    (h : subnet.admits (header? req "x-real-ip") = false) :
    respond s req = (failure (.ipNotAllowed (Text.trim ((header? req "x-real-ip").getD ""))), s) := by
  have ho := Service.checkOrigin_of_not_admits hs h
  unfold respond
  simp only [routeOf_eq]
  cases hr : routeOf req with
  | none => simp only [ho]
  | some route =>
    rw [hr, Option.all_some] at hg
    simp only [hg, if_true, ho]

/-- An ungated handler reads no subnet and keeps the service. -/
theorem handle_of_ungated {route : Route} (hg : route.gated = false) (ps : List String) :
    handle s req route ps = ((handle { s with trustedSubnet := none } req route ps).1, s) := by
  cases route <;> simp only [Route.gated, Bool.true_eq_false] at hg
  · rfl
  · -- the plain value query, with its two parameters or with others
    rcases ps with _ | ⟨tag, _ | ⟨name, _ | ⟨_, _⟩⟩⟩
    · rfl
    · rfl
    · simp only [handle, Service.value_with_trustedSubnet]
      cases s.value tag name <;> rfl
    · rfl
  · simp only [handle, enveloped, Service.valueJson_with_trustedSubnet]
    split
    · rfl
    · cases s.valueJson _ _ <;> rfl

/-- An ungated route answers as with no subnet configured, and keeps the service. -/
theorem respond_of_ungated {route : Route} (hr : routeOf req = some route)
    (hg : route.gated = false) :
    respond s req = ((respond { s with trustedSubnet := none } req).1, s) := by
  unfold respond
  simp only [routeOf_eq, hr, hg, Bool.false_eq_true, if_false]
  rw [handle_of_ungated (s := s) hg]
  generalize List.find? _ _ = found
  cases found <;> split_ifs <;> rfl

end Http

/-! ## The calls -/

namespace Service

variable {s : Service} {subnet : IpNetwork}

/-- A gated call with a refused origin is denied before anything else is read. -/
theorem call_of_refused (hs : s.trustedSubnet = some subnet) {md : String → Option String}
    {c : RpcCall} (hc : c.gated = true) (h : subnet.admits (md "x-real-ip") = false) :
    s.call md c =
      (.error (RpcStatus.ofError (.ipNotAllowed (Text.trim ((md "x-real-ip").getD "")))), s) := by
  cases c <;> simp only [RpcCall.gated, Bool.false_eq_true] at hc <;>
    simp only [call, checkOrigin_of_not_admits hs h, reply]

/-- An ungated call answers as with no subnet configured, and keeps the service. -/
theorem call_of_ungated (md : String → Option String) {c : RpcCall} (hc : c.gated = false) :
    s.call md c = ((({ s with trustedSubnet := none } : Service).call md c).1, s) := by
  cases c <;> simp only [RpcCall.gated, Bool.true_eq_false] at hc
  · simp only [call, value_with_trustedSubnet]
    cases s.value _ _ with
    | ok text => rfl
    | error e =>
      dsimp only
      split_ifs <;> rfl
  · simp only [call, valueJson_with_trustedSubnet]
    cases s.valueJson _ _ <;> rfl
  · rfl

/-! ## Runs -/

/-- A request with a refused origin leaves the service as it was. -/
theorem serve_of_refused (hs : s.trustedSubnet = some subnet) {req : Request}
    (h : subnet.admits req.origin = false) : (s.serve req).2 = s := by
  rcases serve_step s req with ⟨hkeep, -⟩ | ⟨-, -, hok, -⟩
  · exact hkeep
  · rw [checkOrigin_of_not_admits hs h] at hok
    cases hok

theorem trustedSubnet_serve (s : Service) (req : Request) :
    (s.serve req).2.trustedSubnet = s.trustedSubnet := by
  obtain ⟨store, volume, h⟩ := serve_frame s req
  rw [h]

/-- Over a run under a trusted subnet, the requests whose origins it refuses could as well
not have been sent. -/
theorem serveAll_filter_admitted (hs : s.trustedSubnet = some subnet) (reqs : List Request) :
    s.serveAll reqs = s.serveAll (reqs.filter fun r => subnet.admits r.origin) := by
  -- the subnet stays configured, so the same requests are refused at every state
  induction reqs generalizing s with
  | nil => rfl
  | cons r rs ih =>
    have hs' : (s.serve r).2.trustedSubnet = some subnet := (trustedSubnet_serve s r).trans hs
    cases hr : subnet.admits r.origin
    · have hkeep := serve_of_refused hs hr
      simp only [serveAll, List.filter_cons, hr, Bool.false_eq_true, if_false, List.foldl_cons,
        hkeep]
      exact ih hs
    · simp only [serveAll, List.filter_cons, hr, if_true, List.foldl_cons]
      exact ih hs'

/-- **A refused origin changes nothing.** Under a trusted subnet, the origin check passes
exactly the claimed origins that are there and, trimmed, addresses inside the subnet. A
request whose claimed origin the subnet refuses leaves the service as it was, store and
volume alike. The gated routes (the updates and the liveness check, and paths naming no
route) answer it 403, and the gated calls "permission denied", whatever else the request
holds. The queries answer it as with no subnet configured and keep the service. Over any
run through both bindings, the refused requests could as well not have been sent. -/
theorem refused_origin_changes_nothing (hs : s.trustedSubnet = some subnet) :
    (∀ claimed : Option String, s.checkOrigin claimed = .ok () ↔ subnet.admits claimed = true) ∧
    (∀ route : Http.Route, route.gated = true ↔ route.ingests = true ∨ route = .ping) ∧
    (∀ c : RpcCall, c.gated = true ↔ c.ingests = true ∨ c = .ping) ∧
    (∀ req : Request, subnet.admits req.origin = false → (s.serve req).2 = s) ∧
    (∀ req : HttpRequest, subnet.admits (Http.header? req "x-real-ip") = false →
      (Http.routeOf req).all Http.Route.gated = true →
      Http.respond s req = (Http.text 403 Http.textPlain "ip address not allowed", s)) ∧
    (∀ (md : String → Option String) (c : RpcCall), subnet.admits (md "x-real-ip") = false →
      c.gated = true → s.call md c = (.error ⟨.permissionDenied, "ip address not allowed"⟩, s)) ∧
    (∀ (req : HttpRequest) (route : Http.Route), Http.routeOf req = some route →
      route.gated = false →
      Http.respond s req = ((Http.respond { s with trustedSubnet := none } req).1, s)) ∧
    (∀ (md : String → Option String) (c : RpcCall), c.gated = false →
      s.call md c = ((({ s with trustedSubnet := none } : Service).call md c).1, s)) ∧
    (∀ reqs : List Request,
      s.serveAll reqs = s.serveAll (reqs.filter fun r => subnet.admits r.origin)) :=
  ⟨checkOrigin_eq_ok_iff hs, Http.Route.gated_iff, RpcCall.gated_iff,
    fun _ h => serve_of_refused hs h,
    fun _ h hg => Http.respond_of_refused hs hg h, fun _ _ h hc => call_of_refused hs hc h,
    fun _ _ hr hg => Http.respond_of_ungated hr hg, fun md _ hc => call_of_ungated md hc,
    serveAll_filter_admitted hs⟩

/-- The service that trusts `10.0.0.0/8` alone. -/
def trustingTenNet : Service := { trustedSubnet := some ⟨.v4 0x0A000000, 8⟩ }

/-- An update from outside the trusted subnet, with a value that is no number besides. -/
def outsideUpdate : HttpRequest :=
  { method := "POST"
    target := "/update/gauge/Alloc/none"
    headers := [("x-real-ip", Utf8.encode " 192.168.0.1 ")] }

theorem outside_update_refused :
    trustingTenNet.trustedSubnet = some ⟨.v4 0x0A000000, 8⟩ ∧
      Http.respond trustingTenNet outsideUpdate =
        (Http.text 403 Http.textPlain "ip address not allowed", trustingTenNet) :=
  ⟨rfl, (refused_origin_changes_nothing (s := trustingTenNet) rfl).2.2.2.2.1 outsideUpdate
    (by decide) (by decide)⟩

end Service

end Telemetry

import Mathlib
import Telemetry.Server.Traffic
import Telemetry.Proofs.Except

/-
  What serving one request can do to the service.

  Only an update changes anything. A request either leaves the service as it was, and then
  it succeeded only if it asked no update; or it asked an update, passed the origin check
  and succeeded, and the service afterwards is the old one with a new store, persisted when
  every ingestion is written at once (`Service.serve_step`).

  The HTTP side is read off the router: a request stopped on the way (no route, a refused
  origin, another method, a parameter that is no UTF-8) is answered with the service as it
  was (`Http.respond_cases`), and of the handlers only the three updates store anything
  (`Http.handle_cases`). The gRPC side is read off the calls (`Service.call_cases`). Both
  bindings answer the three updates alike: each operation's success replaces the store and
  nothing else (`Service.StoresOnly`), a failure keeps the service, and a success persists the
  new store (`Http.ingested_changes`, `Service.ingested_changes`). Serving
  thus replaces at most the store and the volume (`Service.serve_frame`): the trusted
  subnet, the backends and the write policy stay as they were along every run.
-/

namespace Telemetry

namespace Service

/-! ## The operations that store -/

/-- An operation whose success leaves the service with a new store and all else as it was. -/
def StoresOnly {α : Type} (s : Service) (r : Except MetricError (α × Service)) : Prop :=
  ∀ x s', r = .ok (x, s') → ∃ store, s' = { s with store }

section Stores

variable {α : Type} (s : Service)

theorem storesOnly_withStore (r : Except MetricError (α × Store)) : s.StoresOnly (s.withStore r) := by
  intro x s' h
  cases r with
  | error e => cases h
  | ok p =>
    obtain ⟨v, store⟩ := p
    exact ⟨store, (Prod.mk.inj (Except.ok.inj h)).2.symm⟩

theorem StoresOnly.bind {s : Service} {β : Type} (m : Except MetricError β)
    {k : β → Except MetricError (α × Service)} (h : ∀ b, s.StoresOnly (k b)) :
    s.StoresOnly (m >>= k) := by
  intro x s' hm
  obtain ⟨b, -, hk⟩ := Except.bind_eq_ok.1 hm
  exact h b x s' hk

theorem storesOnly_update (tag name text : String) : s.StoresOnly (s.update tag name text) :=
  storesOnly_withStore s _

theorem storesOnly_updateJson (body : ByteArray) (h : Headers) :
    s.StoresOnly (s.updateJson body h) :=
  StoresOnly.bind _ fun _ => storesOnly_withStore s _

theorem storesOnly_updatesJson (body : ByteArray) (h : Headers) :
    s.StoresOnly (s.updatesJson body h) :=
  StoresOnly.bind _ fun _ => storesOnly_withStore s _

end Stores

/-- Persisting after an ingestion touches the volume alone. -/
theorem exists_volume_persistAfterIngest (s : Service) :
    ∃ volume, s.persistAfterIngest = { s with volume } := by
  unfold persistAfterIngest flush
  split_ifs
  · exact ⟨s.volume, rfl⟩
  · exact ⟨_, rfl⟩
  · exact ⟨s.volume, rfl⟩

/-- What answering may do to a service: keep it, having succeeded only if it ingests nothing;
or ingest, succeed, and replace the store, persisted as the write policy says. -/
def Changes (s : Service) (ingests : Bool) (succeeded : Prop) (s' : Service) : Prop :=
  (s' = s ∧ (succeeded → ingests = false)) ∨
    (ingests = true ∧ succeeded ∧ ∃ store, s' = ({ s with store } : Service).persistAfterIngest)

theorem Changes.keep {s : Service} {ingests : Bool} {succeeded : Prop}
    (h : succeeded → ingests = false) : s.Changes ingests succeeded s :=
  .inl ⟨rfl, h⟩

end Service

/-! ## The HTTP router -/

namespace Http

theorem statusOf_ne_ok (k : ErrorKind) : statusOf k ≠ 200 := by
  cases k <;> decide

theorem status_failure_ne_ok (e : MetricError) : (failure e).status ≠ 200 :=
  statusOf_ne_ok e.kind

theorem Route.gated_of_ingests {route : Route} (h : route.ingests = true) : route.gated = true := by
  cases route <;> simp_all [Route.ingests, Route.gated]

section Handlers

variable {s : Service} {ingests : Bool} {α : Type}

/-- An answer changes the service only as its successes do: a failure keeps it. -/
theorem answer_changes {r : Except MetricError α} {k : α → HttpResponse × Service}
    (hk : ∀ x, r = .ok x → s.Changes ingests ((k x).1.status = 200) (k x).2) :
    s.Changes ingests ((answer s r k).1.status = 200) (answer s r k).2 := by
  cases r with
  | error e => exact .keep fun h => absurd h (status_failure_ne_ok e)
  | ok x => exact hk x rfl

/-- An ingesting operation's answer: a failure keeps the service, a success replaced the
store. -/
theorem ingested_changes {r : Except MetricError (α × Service)} (hr : s.StoresOnly r)
    {res : α → HttpResponse} (h200 : ∀ x, (res x).status = 200) :
    s.Changes true ((ingested s r res).1.status = 200) (ingested s r res).2 :=
  answer_changes fun ⟨x, s'⟩ hx => by
    obtain ⟨store, rfl⟩ := hr x s' hx
    exact .inr ⟨rfl, h200 x, store, rfl⟩

/-- A route reading an envelope changes the service only as its handler does: a body over
the limit is refused with the service as it was. -/
theorem enveloped_changes {req : HttpRequest} {k : ByteArray → Headers → HttpResponse × Service}
    (hk : ∀ body h, s.Changes ingests ((k body h).1.status = 200) (k body h).2) :
    s.Changes ingests ((enveloped s req k).1.status = 200) (enveloped s req k).2 := by
  unfold enveloped
  split
  · exact .keep fun h => by simp [bodyRefused, text] at h
  · exact hk _ _

end Handlers

/-- A handler either leaves the service as it was, succeeding only on a route that stores
nothing, or is an update that succeeded and replaced the store. -/
theorem handle_cases (s : Service) (req : HttpRequest) (route : Route) (ps : List String) :
    s.Changes route.ingests ((handle s req route ps).1.status = 200) (handle s req route ps).2 := by
  unfold handle
  split
  · exact .keep fun _ => rfl
  · exact answer_changes fun _ _ => .keep fun _ => rfl
  · exact enveloped_changes fun _ _ => answer_changes fun _ _ => .keep fun _ => rfl
  -- the three updates: only a success changes the service, and only its store
  · exact ingested_changes (Service.storesOnly_update s _ _ _) fun _ => rfl
  · exact enveloped_changes fun _ _ =>
      ingested_changes (Service.storesOnly_updateJson s _ _) fun _ => rfl
  · exact enveloped_changes fun _ _ =>
      ingested_changes (Service.storesOnly_updatesJson s _ _) fun _ => rfl
  · exact answer_changes fun _ _ => .keep fun _ => rfl
  -- parameters that do not fit the route
  · exact .keep fun h => by simp at h

/-- The router either stops a request with the service as it was and a status other than
200, or hands it to the handler of its route, past the origin check when the route is
gated. -/
theorem respond_cases (s : Service) (req : HttpRequest) :
    ((respond s req).2 = s ∧ (respond s req).1.status ≠ 200) ∨
    ∃ route ps, routeOf req = some route ∧
      (route.gated = true → s.checkOrigin (header? req "x-real-ip") = .ok ()) ∧
      (respond s req).1.status = (handle s req route ps).1.status ∧
      (respond s req).2 = (handle s req route ps).2 := by
  unfold respond
  simp only
  split
  · -- no route: refused or not found
    split
    · exact .inl ⟨rfl, status_failure_ne_ok _⟩
    · exact .inl ⟨rfl, by simp⟩
  · next route hroute =>
    split
    · exact .inl ⟨rfl, status_failure_ne_ok _⟩
    · next u hgate =>
      cases hallowed : (if route.isGet = true then
          req.method == "GET" || (req.method == "HEAD" && route.isGet) else req.method == "POST")
      · exact .inl ⟨rfl, by simp⟩
      · simp only [Bool.not_true, Bool.false_eq_true, if_false]
        split
        · -- a parameter that is no UTF-8
          left
          refine ⟨rfl, ?_⟩
          split <;> simp [text]
        · right
          refine ⟨route, _, hroute, fun hg => ?_, ?_, rfl⟩
          · simpa [hg] using hgate
          · split <;> rfl

end Http

/-! ## The gRPC calls -/

namespace Service

section Replies

variable {s : Service} {ingests : Bool} {α : Type}

/-- A reply changes the service only as its successes do: a failure keeps it. -/
theorem reply_changes {r : Except MetricError α} {k : α → Except RpcStatus RpcReply × Service}
    (hk : ∀ x, r = .ok x → s.Changes ingests ((k x).1.isOk = true) (k x).2) :
    s.Changes ingests ((s.reply r k).1.isOk = true) (s.reply r k).2 := by
  cases r with
  | error e => exact .keep fun h => by simp [reply, Except.isOk, Except.toBool] at h
  | ok x => exact hk x rfl

/-- A reply that succeeded had its operation succeed. -/
theorem eq_ok_of_reply {r : Except MetricError α} {k : α → Except RpcStatus RpcReply × Service}
    (h : (s.reply r k).1.isOk = true) : ∃ x, r = .ok x := by
  cases r with
  | error e => simp [reply, Except.isOk, Except.toBool] at h
  | ok x => exact ⟨x, rfl⟩

/-- An ingesting operation's reply: a failure keeps the service, a success replaced the
store. -/
theorem ingested_changes {r : Except MetricError (α × Service)} (hr : s.StoresOnly r)
    (k : α → RpcReply) : s.Changes true ((s.ingested r k).1.isOk = true) (s.ingested r k).2 :=
  reply_changes fun ⟨x, s'⟩ hx => by
    obtain ⟨store, rfl⟩ := hr x s' hx
    exact .inr ⟨rfl, rfl, store, rfl⟩

end Replies

/-- A call either leaves the service as it was, succeeding only when it stores nothing, or
is an update that succeeded and replaced the store; an update succeeds only past the origin
check. -/
theorem call_cases (s : Service) (md : String → Option String) (c : RpcCall) :
    s.Changes c.ingests ((s.call md c).1.isOk = true) (s.call md c).2 ∧
      (c.ingests = true → (s.call md c).1.isOk = true →
        s.checkOrigin (md "x-real-ip") = .ok ()) := by
  -- a gated call's reply succeeds only once the origin passed
  have gate {k : Unit → Except RpcStatus RpcReply × Service}
      (h : (s.reply (s.checkOrigin (md "x-real-ip")) k).1.isOk = true) :
      s.checkOrigin (md "x-real-ip") = .ok () := by
    obtain ⟨u, hu⟩ := eq_ok_of_reply h
    exact hu
  cases c with
  | update t n v =>
    exact ⟨reply_changes fun _ _ => ingested_changes (storesOnly_update s t n v) _,
      fun _ => gate⟩
  | updateJson body =>
    exact ⟨reply_changes fun _ _ => ingested_changes (storesOnly_updateJson s body _) _,
      fun _ => gate⟩
  | updatesJson body =>
    exact ⟨reply_changes fun _ _ => ingested_changes (storesOnly_updatesJson s body _) _,
      fun _ => gate⟩
  -- the queries and the liveness check answer with the service as it was
  | value t n =>
    refine ⟨?_, fun h => by simp [RpcCall.ingests] at h⟩
    simp only [call]
    split
    · exact .keep fun _ => rfl
    · split <;> exact .keep fun _ => rfl
  | valueJson body =>
    exact ⟨reply_changes fun _ _ => .keep fun _ => rfl, fun h => by simp [RpcCall.ingests] at h⟩
  | ping =>
    exact ⟨reply_changes fun _ _ => reply_changes fun _ _ => .keep fun _ => rfl,
      fun h => by simp [RpcCall.ingests] at h⟩
  | listMetrics => exact ⟨.keep fun _ => rfl, fun h => by simp [RpcCall.ingests] at h⟩

/-! ## One request, through either binding -/

/-- What serving a request may do: nothing, and then it succeeded only if it asked no
update; or it asked an update that the origin check let through and that succeeded, and
the store was replaced and persisted as the write policy says. -/
def ServeStep (s : Service) (req : Request) (a : Answer) (s' : Service) : Prop :=
  (s' = s ∧ (a.succeeded = true → req.ingests = false)) ∨
  (req.ingests = true ∧ a.succeeded = true ∧ s.checkOrigin req.origin = .ok () ∧
    ∃ store, s' = ({ s with store } : Service).persistAfterIngest)

theorem serve_step (s : Service) (req : Request) :
    s.ServeStep req (s.serve req).1 (s.serve req).2 := by
  unfold ServeStep
  cases req with
  | http req =>
    simp only [serve, Answer.succeeded, Request.origin, Request.ingests, beq_iff_eq]
    rcases Http.respond_cases s req with ⟨hs, hst⟩ | ⟨route, ps, hroute, hgate, hst, hs⟩
    · exact .inl ⟨hs, fun h => absurd h hst⟩
    · rw [hroute, Option.any_some, hst, hs]
      rcases Http.handle_cases s req route ps with ⟨h2, h1⟩ | ⟨hr, h200, store, h2⟩
      · exact .inl ⟨h2, h1⟩
      · exact .inr ⟨hr, h200, hgate (Http.Route.gated_of_ingests hr), store, h2⟩
  | rpc md c =>
    simp only [serve, Answer.succeeded, Request.origin, Request.ingests]
    obtain ⟨hchanges, hgate⟩ := call_cases s md c
    rcases hchanges with ⟨h2, h1⟩ | ⟨hc, hok, store, h2⟩
    · exact .inl ⟨h2, h1⟩
    · exact .inr ⟨hc, hok, hgate hc hok, store, h2⟩

/-- A request that is no update, or fails, leaves the service as it was. -/
theorem serve_eq_of_not_ingested {s : Service} {req : Request}
    (h : ¬(req.ingests = true ∧ (s.serve req).1.succeeded = true)) : (s.serve req).2 = s := by
  rcases serve_step s req with ⟨hs, -⟩ | ⟨hr, hok, -⟩
  · exact hs
  · exact absurd ⟨hr, hok⟩ h

/-- An update that succeeded replaced the store and persisted it as the write policy says. -/
theorem serve_of_ingested {s : Service} {req : Request}
    (h : req.ingests = true ∧ (s.serve req).1.succeeded = true) :
    ∃ store, (s.serve req).2 = ({ s with store } : Service).persistAfterIngest := by
  rcases serve_step s req with ⟨-, hsucc⟩ | ⟨-, -, -, hs⟩
  · simp [hsucc h.2] at h
  · exact hs

/-- Serving replaces at most the store and the volume. -/
theorem serve_frame (s : Service) (req : Request) :
    ∃ store volume, (s.serve req).2 = { s with store, volume } := by
  rcases serve_step s req with ⟨hs, -⟩ | ⟨-, -, -, store, hs⟩
  · exact ⟨s.store, s.volume, hs⟩
  · obtain ⟨volume, hv⟩ := exists_volume_persistAfterIngest { s with store }
    exact ⟨store, volume, hs.trans hv⟩

end Service

end Telemetry

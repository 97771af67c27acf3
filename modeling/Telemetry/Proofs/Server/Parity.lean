import Mathlib
import Telemetry.Server.Http
import Telemetry.Server.Rpc

/-
  The HTTP and gRPC bindings answer alike.

  Both bindings hand a request to the same service operations; they differ in how a request
  reaches them (a path matched and percent-decoded, with its headers, against a call with its
  metadata), in where the origin is checked, and in how a failure is reported: HTTP statuses
  by `Http.statusOf`, gRPC codes by `RpcStatus.ofError`. `Outcome` names the classes both
  share; a bad request is 400 over HTTP and "permission denied" over gRPC, as a refused
  origin is 403 and "permission denied", so the two fall in one class, `refused`.

  `SameRequest` pairs an HTTP request with the call that asks the same: an update whose path
  segments percent-decode to the type, name and value of the call, the three enveloped
  requests with one body of at most 2 MiB, and the liveness check. `SameHeaders` says the
  metadata shows the origin and envelope headers the request carries.

  `binding_parity`: on any service, a request and its call end in the same class, leave the
  same service (store and persisted snapshot alike), and the HTTP body carries the gRPC
  record body, gzipped exactly when the response says so. The argument: the HTTP request
  reaches its handler through the same gate as the call (`respond_route`), and both answer
  the same service operation, a failure landing in one class on both sides (`Agree.answer`,
  `outcome_failure`). The three updates are answered alike on success (`Agree.ingested`), and
  the routes that read an envelope take the same body and envelope headers as their calls
  (`Agree.enveloped`). The plain value query is the one place they part
  (`value_missing_classes`).
-/

namespace Telemetry

/-! ## Outcomes -/

/-- What a request came to, in the classes both bindings share. -/
inductive Outcome where
  | ok
  | refused
  | unimplemented
  | notFound
  | internal
  deriving DecidableEq, Repr

namespace Http

/-- The class of an HTTP status. -/
def outcome? : Nat → Option Outcome
  | 200 => some .ok
  | 400 => some .refused
  | 403 => some .refused
  | 501 => some .unimplemented
  | 404 => some .notFound
  | 500 => some .internal
  | _ => none

end Http

namespace RpcCode

/-- The class of a gRPC code. -/
def outcome : RpcCode → Outcome
  | permissionDenied => .refused
  | unimplemented => .unimplemented
  | notFound => .notFound
  | internal => .internal

end RpcCode

/-- The class of a gRPC answer. -/
def rpcOutcome : Except RpcStatus RpcReply → Outcome
  | .ok _ => .ok
  | .error st => st.code.outcome

/-- A failure lands in one class over both bindings. -/
theorem outcome_failure (e : MetricError) :
    Http.outcome? (Http.failure e).status = some (rpcOutcome (.error (RpcStatus.ofError e))) := by
  cases hk : e.kind <;>
    simp [Http.failure, Http.text, Http.statusOf, RpcStatus.ofError, rpcOutcome, RpcCode.outcome,
      Http.outcome?, hk]

/-! ## Reaching a handler -/

namespace Http

/-- A target without query or fragment is its own path. -/
theorem path_of_plain {target : String} (hq : '?' ∉ target.toList) (hf : '#' ∉ target.toList) :
    String.ofList (target.toList.takeWhile fun c => c != '?' && c != '#') = target := by
  rw [List.takeWhile_eq_self_iff.2, String.ofList_toList]
  intro c hc
  have h1 : c ≠ '?' := fun h => hq (h ▸ hc)
  have h2 : c ≠ '#' := fun h => hf (h ▸ hc)
  simp [h1, h2]

theorem decoded_of_decode {l : List (String × String)} {ps : List String}
    (h : l.map (fun p => decodeParam p.2) = ps.map some) :
    (l.map fun (key, raw) => (key, decodeParam raw)).find? (fun p => p.2.isNone) = none ∧
      (l.map fun (key, raw) => (key, decodeParam raw)).filterMap
        (fun (p : String × Option String) => p.2) = ps := by
  induction l generalizing ps with
  | nil =>
    cases ps with
    | nil => exact ⟨rfl, rfl⟩
    | cons q qs => simp at h
  | cons p l ih =>
    cases ps with
    | nil => simp at h
    | cons q qs =>
      simp only [List.map_cons, List.cons.injEq] at h
      obtain ⟨hq, hl⟩ := h
      obtain ⟨hfind, hmap⟩ := ih hl
      simp [hq, hfind, hmap]

/-- A request on a route, with the route's method and parameters that decode, reaches the
route's handler once the route's gate lets it through. -/
theorem respond_route {s : Service} {req : HttpRequest} {route : Route} {ps : List String}
    (hpath : Route.ofPath
      (String.ofList (req.target.toList.takeWhile fun c => c != '?' && c != '#')) = some route)
    (hmethod : req.method = if route.isGet then "GET" else "POST")
    (hps : route.params.map (fun p => decodeParam p.2) = ps.map some) :
    respond s req =
      answer s (if route.gated then s.checkOrigin (header? req "x-real-ip") else .ok ())
        fun _ => handle s req route ps := by
  obtain ⟨hfind, hmap⟩ := decoded_of_decode hps
  simp only [respond, hpath]
  generalize (if route.gated = true then s.checkOrigin (header? req "x-real-ip") else .ok ()) = g
  cases g with
  | error e => rfl
  | ok u =>
    -- the method is the route's own, so it is allowed and is not `HEAD`
    cases hget : route.isGet <;> simp [hget, hmethod, hfind, hmap, answer]

theorem parts_slash (a b : String) (ha : '/' ∉ a.toList) :
    ((a ++ "/" ++ b).toList.splitOn '/').map String.ofList =
      a :: (b.toList.splitOn '/').map String.ofList := by
  rw [String.toList_append, String.toList_append, show "/".toList = ['/'] by rfl,
    List.append_assoc, List.singleton_append, List.splitOn_append_cons_self_of_not_mem ha]
  simp

theorem parts_plain {b : String} (hb : '/' ∉ b.toList) :
    (b.toList.splitOn '/').map String.ofList = [b] := by
  rw [List.splitOn_eq_singleton hb]
  simp

/-- A segment as a client writes it: no separator, query or fragment mark, and it
percent-decodes to `text`. -/
structure SegmentOf (raw text : String) : Prop where
  noSlash : '/' ∉ raw.toList
  noQuery : '?' ∉ raw.toList
  noFragment : '#' ∉ raw.toList
  decodes : decodeParam raw = some text

theorem SegmentOf.ne_empty {raw text : String} (h : SegmentOf raw text) (ht : text ≠ "") :
    raw ≠ "" := by
  rintro rfl
  have : decodeParam "" = some "" := by decide
  exact ht (Option.some_injective _ (h.decodes.symm.trans this))

/-- The update path of three segments is the text update route. -/
theorem ofPath_update {t n v : String} (ht : '/' ∉ t.toList) (hn : '/' ∉ n.toList)
    (hv : '/' ∉ v.toList) (hv0 : v ≠ "") :
    Route.ofPath ("/update/" ++ t ++ "/" ++ n ++ "/" ++ v) = some (.updateText t n v) := by
  have hpath : "/update/" ++ t ++ "/" ++ n ++ "/" ++ v =
      "" ++ "/" ++ ("update" ++ "/" ++ (t ++ "/" ++ (n ++ "/" ++ v))) := by
    simp only [String.append_assoc]
    rfl
  rw [Route.ofPath, hpath, parts_slash _ _ (by simp), parts_slash _ _ (by decide),
    parts_slash _ _ ht, parts_slash _ _ hn, parts_plain hv]
  simp [hv0]

/-- The value path of two segments is the plain value route. -/
theorem ofPath_value {t n : String} (ht : '/' ∉ t.toList) (hn : '/' ∉ n.toList) (hn0 : n ≠ "") :
    Route.ofPath ("/value/" ++ t ++ "/" ++ n) = some (.valueText t n) := by
  have hpath : "/value/" ++ t ++ "/" ++ n = "" ++ "/" ++ ("value" ++ "/" ++ (t ++ "/" ++ n)) := by
    simp only [String.append_assoc]
    rfl
  rw [Route.ofPath, hpath, parts_slash _ _ (by simp), parts_slash _ _ (by decide),
    parts_slash _ _ ht, parts_plain hn]
  simp [hn0]

end Http

/-! ## Requests that ask the same -/

/-- An HTTP request and a gRPC call that ask the same of the service. -/
inductive SameRequest : HttpRequest → RpcCall → Prop
  /-- An update whose path segments decode to the call's type, name and value. -/
  | update {t n v tag name value : String} {headers : List (String × List UInt8)}
      {body : ByteArray} (ht : Http.SegmentOf t tag) (hn : Http.SegmentOf n name)
      (hv : Http.SegmentOf v value) (hvalue : value ≠ "") :
      SameRequest ⟨"POST", "/update/" ++ t ++ "/" ++ n ++ "/" ++ v, headers, body⟩
        (.update tag name value)
  | updateJson {headers : List (String × List UInt8)} {body : ByteArray}
      (hsize : body.size ≤ Http.bodyLimit) :
      SameRequest ⟨"POST", "/update", headers, body⟩ (.updateJson body)
  | updatesJson {headers : List (String × List UInt8)} {body : ByteArray}
      (hsize : body.size ≤ Http.bodyLimit) :
      SameRequest ⟨"POST", "/updates", headers, body⟩ (.updatesJson body)
  | valueJson {headers : List (String × List UInt8)} {body : ByteArray}
      (hsize : body.size ≤ Http.bodyLimit) :
      SameRequest ⟨"POST", "/value", headers, body⟩ (.valueJson body)
  | ping {headers : List (String × List UInt8)} {body : ByteArray} :
      SameRequest ⟨"GET", "/ping", headers, body⟩ .ping

/-- The call's metadata shows the origin and the envelope headers of the request. -/
def SameHeaders (req : HttpRequest) (md : String → Option String) : Prop :=
  ∀ name ∈ ["x-real-ip", "content-encoding", "content-encryption"], md name = Http.header? req name

theorem SameHeaders.origin {req : HttpRequest} {md : String → Option String}
    (h : SameHeaders req md) : md "x-real-ip" = Http.header? req "x-real-ip" :=
  h _ (by simp)

/-- Metadata showing the envelope headers of a request reads as the same envelope headers. -/
theorem SameHeaders.envelope {req : HttpRequest} {md : String → Option String}
    (h : SameHeaders req md) : Headers.ofLookup md = Http.envelopeHeaders req := by
  have he : md "content-encoding" = Http.header? req "content-encoding" := h _ (by simp)
  have hc : md "content-encryption" = Http.header? req "content-encryption" := h _ (by simp)
  simp [Http.envelopeHeaders, Headers.ofLookup, he, hc]

/-- The response's body is `b`, gzipped when the response says it is. -/
def Http.Carries (res : HttpResponse) (b : ByteArray) : Prop :=
  res.body = if res.headers.lookup "content-encoding" = some (Utf8.encode "gzip")
    then Gzip.compress b else b

namespace Http

private theorem contentType_ne : ("content-encoding" == "content-type") = false := by decide

theorem carries_text (status : Nat) (contentType b : String) :
    Carries (text status contentType b) b.toUTF8 := by
  simp [Carries, text, List.lookup, contentType_ne]

@[simp] theorem negotiated_status (req : HttpRequest) (contentType : String) (b : ByteArray) :
    (negotiated req contentType b).status = 200 := by
  unfold negotiated
  split <;> rfl

/-- A negotiated answer carries its body, gzipped exactly when it says so. -/
theorem carries_negotiated (req : HttpRequest) (contentType : String) (b : ByteArray) :
    Carries (negotiated req contentType b) b := by
  unfold Carries negotiated
  split <;> simp [List.lookup, contentType_ne]

end Http

/-- The HTTP response carries the record body of a gRPC reply, if it has one. -/
def SameBody (res : HttpResponse) : Except RpcStatus RpcReply → Prop
  | .ok (.body b) => Http.Carries res b
  | _ => True

/-- Two answers agree: one class, one service after, and the record body carried. -/
structure Agree (h : HttpResponse × Service) (g : Except RpcStatus RpcReply × Service) :
    Prop where
  outcome : Http.outcome? h.1.status = some (rpcOutcome g.1)
  service : h.2 = g.2
  body : SameBody h.1 g.1

@[simp] theorem Http.answer_ok {α : Type} (s : Service) (x : α)
    (k : α → HttpResponse × Service) : Http.answer s (.ok x) k = k x := rfl

namespace Agree

theorem failure (s : Service) (e : MetricError) :
    Agree (Http.failure e, s) (.error (.ofError e), s) :=
  ⟨outcome_failure e, rfl, trivial⟩

variable {α : Type} {s : Service}

/-- Both bindings answer an operation alike when they answer each of its results alike: a
failure lands in one class and keeps the service. -/
theorem answer {r : Except MetricError α} {f : α → HttpResponse × Service}
    {g : α → Except RpcStatus RpcReply × Service} (h : ∀ x, r = .ok x → Agree (f x) (g x)) :
    Agree (Http.answer s r f) (s.reply r g) := by
  cases r with
  | error e => exact failure s e
  | ok x => exact h x rfl

/-- An ingesting operation is answered alike when each success answers 200 over HTTP and
carries the record body of the gRPC reply. -/
theorem ingested (r : Except MetricError (α × Service)) {res : α → HttpResponse}
    {k : α → RpcReply} (h : ∀ x, (res x).status = 200 ∧ SameBody (res x) (.ok (k x))) :
    Agree (Http.ingested s r res) (s.ingested r k) :=
  answer fun ⟨x, _⟩ _ => ⟨by simp [(h x).1, Http.outcome?, rpcOutcome], rfl, (h x).2⟩

/-- **The enveloped routes.** A body within the limit reaches the route's operation with the
envelope headers that the call's metadata shows, so the request agrees with the call when
the operation's answers do. -/
theorem enveloped {req : HttpRequest} {md : String → Option String}
    (hsize : req.body.size ≤ Http.bodyLimit) (hmd : SameHeaders req md)
    {k : ByteArray → Headers → HttpResponse × Service} {g : Except RpcStatus RpcReply × Service}
    (h : Agree (k req.body (Headers.ofLookup md)) g) : Agree (Http.enveloped s req k) g := by
  rw [Http.enveloped, if_neg (by omega), ← hmd.envelope]
  exact h

end Agree

section
variable {s : Service} {md : String → Option String} {headers : List (String × List UInt8)}
  {body : ByteArray}

theorem agree_update {t n v tag name value : String} (ht : Http.SegmentOf t tag)
    (hn : Http.SegmentOf n name) (hv : Http.SegmentOf v value) (hvalue : value ≠ "")
    (hmd : SameHeaders ⟨"POST", "/update/" ++ t ++ "/" ++ n ++ "/" ++ v, headers, body⟩ md) :
    Agree (Http.respond s ⟨"POST", "/update/" ++ t ++ "/" ++ n ++ "/" ++ v, headers, body⟩)
      (s.call md (.update tag name value)) := by
  have hpath := @Http.path_of_plain ("/update/" ++ t ++ "/" ++ n ++ "/" ++ v)
    (by simp [String.toList_append, ht.noQuery, hn.noQuery, hv.noQuery])
    (by simp [String.toList_append, ht.noFragment, hn.noFragment, hv.noFragment])
  rw [@Http.respond_route _ _ _ [tag, name, value]
    (by rw [hpath]; exact Http.ofPath_update ht.noSlash hn.noSlash hv.noSlash (hv.ne_empty hvalue))
    rfl (by simp [Http.Route.params, ht.decodes, hn.decodes, hv.decodes])]
  simp only [Service.call, Http.Route.gated, if_true, hmd.origin, Http.handle]
  exact Agree.answer fun _ _ => Agree.ingested _ fun _ => ⟨rfl, trivial⟩

theorem agree_updateJson (hsize : body.size ≤ Http.bodyLimit)
    (hmd : SameHeaders ⟨"POST", "/update", headers, body⟩ md) :
    Agree (Http.respond s ⟨"POST", "/update", headers, body⟩) (s.call md (.updateJson body)) := by
  rw [@Http.respond_route _ _ .updateJson [] (by dsimp only; decide) rfl rfl]
  simp only [Service.call, Http.Route.gated, if_true, hmd.origin, Http.handle]
  exact Agree.answer fun _ _ => Agree.enveloped hsize hmd
    (Agree.ingested _ fun _ => ⟨rfl, Http.carries_text _ _ _⟩)

theorem agree_updatesJson (hsize : body.size ≤ Http.bodyLimit)
    (hmd : SameHeaders ⟨"POST", "/updates", headers, body⟩ md) :
    Agree (Http.respond s ⟨"POST", "/updates", headers, body⟩) (s.call md (.updatesJson body)) := by
  rw [@Http.respond_route _ _ .updatesJson [] (by dsimp only; decide) rfl rfl]
  simp only [Service.call, Http.Route.gated, if_true, hmd.origin, Http.handle]
  exact Agree.answer fun _ _ => Agree.enveloped hsize hmd (Agree.ingested _ fun _ => ⟨rfl, trivial⟩)

theorem agree_valueJson (hsize : body.size ≤ Http.bodyLimit)
    (hmd : SameHeaders ⟨"POST", "/value", headers, body⟩ md) :
    Agree (Http.respond s ⟨"POST", "/value", headers, body⟩) (s.call md (.valueJson body)) := by
  rw [@Http.respond_route _ _ .valueJson [] (by dsimp only; decide) rfl rfl]
  simp only [Service.call, Http.Route.gated, Bool.false_eq_true, if_false, Http.answer_ok,
    Http.handle]
  exact Agree.enveloped hsize hmd (Agree.answer fun _ _ =>
    ⟨by simp [Http.outcome?, rpcOutcome], rfl, Http.carries_negotiated _ _ _⟩)

theorem agree_ping (hmd : SameHeaders ⟨"GET", "/ping", headers, body⟩ md) :
    Agree (Http.respond s ⟨"GET", "/ping", headers, body⟩) (s.call md .ping) := by
  rw [@Http.respond_route _ _ .ping [] (by dsimp only; decide) rfl rfl]
  simp only [Service.call, Http.Route.gated, if_true, hmd.origin, Http.handle]
  exact Agree.answer fun _ _ => Agree.answer fun _ _ =>
    ⟨by simp [Http.text, Http.outcome?, rpcOutcome], rfl, trivial⟩

end

/-! ## The plain value query

Here alone the bindings part: over gRPC a missing metric is an internal failure. -/

section
variable {s : Service} {md : String → Option String} {headers : List (String × List UInt8)}
  {body : ByteArray} {t n tag name : String}

theorem respond_valueText (ht : Http.SegmentOf t tag) (hn : Http.SegmentOf n name)
    (hname : name ≠ "") :
    Http.respond s ⟨"GET", "/value/" ++ t ++ "/" ++ n, headers, body⟩ =
      match s.value tag name with
      | .ok text => (Http.text 200 Http.textPlain text, s)
      | .error e => (Http.failure e, s) := by
  have hpath := @Http.path_of_plain ("/value/" ++ t ++ "/" ++ n)
    (by simp [String.toList_append, ht.noQuery, hn.noQuery])
    (by simp [String.toList_append, ht.noFragment, hn.noFragment])
  rw [@Http.respond_route _ _ _ [tag, name]
    (by rw [hpath]; exact Http.ofPath_value ht.noSlash hn.noSlash (hn.ne_empty hname))
    rfl (by simp [Http.Route.params, ht.decodes, hn.decodes])]
  cases hv : s.value tag name <;> simp [Http.Route.gated, Http.handle, Http.answer, hv]

/-- A plain value query that finds its metric, or fails otherwise than by a missing metric,
agrees over both bindings. -/
theorem agree_value (ht : Http.SegmentOf t tag) (hn : Http.SegmentOf n name) (hname : name ≠ "")
    (hfound : ∀ e, s.value tag name = .error e → e.kind ≠ .notFound) :
    Agree (Http.respond s ⟨"GET", "/value/" ++ t ++ "/" ++ n, headers, body⟩)
      (s.call md (.value tag name)) := by
  rw [respond_valueText ht hn hname]
  cases hv : s.value tag name with
  | error e =>
    have hk : (e.kind == .notFound) = false := by simpa using hfound e hv
    simpa [Service.call, hv, hk] using Agree.failure s e
  | ok text =>
    exact ⟨by simp [Service.call, hv, Http.text, Http.outcome?, rpcOutcome],
      by simp [Service.call, hv], by simp [Service.call, hv, SameBody]⟩

/-- A plain value query for a missing metric is "not found" over HTTP and "internal" over
gRPC. -/
theorem value_missing_classes (ht : Http.SegmentOf t tag) (hn : Http.SegmentOf n name)
    (hname : name ≠ "") {e : MetricError} (he : s.value tag name = .error e)
    (hk : e.kind = .notFound) :
    Http.outcome? (Http.respond s ⟨"GET", "/value/" ++ t ++ "/" ++ n, headers, body⟩).1.status =
        some .notFound ∧
      rpcOutcome (s.call md (.value tag name)).1 = .internal := by
  rw [respond_valueText ht hn hname]
  simp [Service.call, he, hk, Http.failure, Http.text, Http.statusOf, Http.outcome?, rpcOutcome,
    RpcCode.outcome]

end

/-! ## Parity -/

/-- A request over HTTP and the call that asks the same over gRPC, with metadata showing the
request's headers, end in one class, leave one service, and the HTTP body carries the gRPC
record body (gzipped exactly when the response says so). -/
theorem binding_parity {s : Service} {req : HttpRequest} {c : RpcCall}
    {md : String → Option String} (hreq : SameRequest req c) (hmd : SameHeaders req md) :
    Agree (Http.respond s req) (s.call md c) := by
  cases hreq with
  | update ht hn hv hvalue => exact agree_update ht hn hv hvalue hmd
  | updateJson hsize => exact agree_updateJson hsize hmd
  | updatesJson hsize => exact agree_updatesJson hsize hmd
  | valueJson hsize => exact agree_valueJson hsize hmd
  | ping => exact agree_ping hmd

theorem binding_parity_gauge_update :
    SameRequest ⟨"POST", "/update/" ++ "gauge" ++ "/" ++ "Alloc" ++ "/" ++ "1.5", [], .empty⟩
        (.update "gauge" "Alloc" "1.5") ∧
      Agree
        (Http.respond {} ⟨"POST", "/update/" ++ "gauge" ++ "/" ++ "Alloc" ++ "/" ++ "1.5", [], .empty⟩)
        (Service.call {} (fun _ => none) (.update "gauge" "Alloc" "1.5")) :=
  have h := @SameRequest.update "gauge" "Alloc" "1.5" "gauge" "Alloc" "1.5" [] .empty
    ⟨by decide, by decide, by decide, by decide⟩ ⟨by decide, by decide, by decide, by decide⟩
    ⟨by decide, by decide, by decide, by decide⟩ (by decide)
  ⟨h, binding_parity h fun _ _ => rfl⟩

end Telemetry

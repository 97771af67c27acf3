import Telemetry.Server.Service

/-
  The gRPC binding of the metrics service.

  Calls carry their envelope headers and the `x-real-ip` origin as metadata. `Update`,
  `UpdateJson`, `UpdatesJson` and `Ping` check the origin first. A failure answers a status
  code by kind (bad requests and refused origins are "permission denied", unknown types
  "unimplemented", missing metrics "not found", the rest "internal") with the kind's text;
  `Value` alone reports a missing metric as internal.
-/

namespace Telemetry

/-- A gRPC status code. -/
inductive RpcCode where
  | permissionDenied
  | unimplemented
  | notFound
  | internal
  deriving DecidableEq, Repr

namespace RpcCode

/-- The code's name. -/
def name : RpcCode → String
  | permissionDenied => "PermissionDenied"
  | unimplemented => "Unimplemented"
  | notFound => "NotFound"
  | internal => "Internal"

end RpcCode

/-- A failed call: code and message. -/
structure RpcStatus where
  code : RpcCode
  message : String
  deriving DecidableEq, Repr

namespace RpcStatus

/-- The status of a failure: a code by kind, and the kind's text. -/
def ofError (e : MetricError) : RpcStatus :=
  let code := match e.kind with
    | .badRequest | .ipNotAllowed => RpcCode.permissionDenied
    | .notImplemented => .unimplemented
    | .notFound => .notFound
    | .internalServer | .decrypt | .decompress => .internal
  ⟨code, e.kind.text⟩

end RpcStatus

/-- A call of the metrics service. -/
inductive RpcCall where
  | update (metricType name value : String)
  | updateJson (body : ByteArray)
  | updatesJson (body : ByteArray)
  | value (metricType name : String)
  | valueJson (body : ByteArray)
  | ping
  | listMetrics

/-- A successful reply. -/
inductive RpcReply where
  | result (text : String)
  | body (bytes : ByteArray)
  | value (text : String)
  | metrics (lines : List String)

namespace Service

/-- Answers an operation: `k` of its result, or the status of its failure with the service as
it was. -/
def reply {α : Type} (s : Service) (r : Except MetricError α)
    (k : α → Except RpcStatus RpcReply × Service) : Except RpcStatus RpcReply × Service :=
  match r with
  | .ok x => k x
  | .error e => (.error (.ofError e), s)

/-- Answers an operation that ingests: a success replies `k` of its result, with the service
after it persisted as the write policy says. -/
def ingested {α : Type} (s : Service) (r : Except MetricError (α × Service)) (k : α → RpcReply) :
    Except RpcStatus RpcReply × Service :=
  s.reply r fun (x, s') => (.ok (k x), s'.persistAfterIngest)

/-- Answers a call with the given metadata lookup. -/
def call (s : Service) (metadata : String → Option String) (c : RpcCall) :
    Except RpcStatus RpcReply × Service :=
  let headers := Headers.ofLookup metadata
  let guarded (k : Unit → Except RpcStatus RpcReply × Service) :=
    s.reply (s.checkOrigin (metadata "x-real-ip")) k
  match c with
  | .update t n v => guarded fun _ => s.ingested (s.update t n v) fun _ => .result "ok"
  | .updateJson body => guarded fun _ =>
    s.ingested (s.updateJson body headers) fun r => .body r.toJsonText.toUTF8
  | .updatesJson body => guarded fun _ =>
    s.ingested (s.updatesJson body headers) fun _ => .result "ok"
  | .value t n =>
    match s.value t n with
    | .ok text => (.ok (.value text), s)
    | .error e =>
      if e.kind == .notFound then (.error ⟨.internal, e.kind.text⟩, s)
      else (.error (.ofError e), s)
  | .valueJson body =>
    s.reply (s.valueJson body headers) fun r => (.ok (.body r.toJsonText.toUTF8), s)
  | .ping => guarded fun _ => s.reply s.ping fun _ => (.ok (.result "ok"), s)
  | .listMetrics => (.ok (.metrics (s.list.mergeSort fun a b => decide (a ≤ b))), s)

end Service

end Telemetry

import Telemetry.Server.Http
import Telemetry.Server.Rpc

/-
  The server's traffic: requests through either binding, served against one service.

  The HTTP router and the gRPC service share the service, so a run of the server is the
  requests of both bindings in the order they are served (`Service.serveAll`). A request's
  claimed origin is its `x-real-ip` header or metadata. It ingests when it asks one of the
  three updates: `POST /update/{type}/{name}/{value}`, `POST /update` and `POST /updates`,
  or the calls `Update`, `UpdateJson` and `UpdatesJson`. An answer succeeds with status 200
  or with a reply.
-/

namespace Telemetry

namespace Http

/-- The path of a request: its target up to a query or a fragment. -/
def pathOf (req : HttpRequest) : String :=
  String.ofList (req.target.toList.takeWhile fun c => c != '?' && c != '#')

/-- The route a request's path names, if any. -/
def routeOf (req : HttpRequest) : Option Route := Route.ofPath (pathOf req)

/-- The route stores what it is sent. -/
def Route.ingests : Route → Bool
  | .updateText .. | .updateJson | .updatesJson => true
  | _ => false

end Http

namespace RpcCall

/-- The call stores what it is sent. -/
def ingests : RpcCall → Bool
  | update .. | updateJson _ | updatesJson _ => true
  | _ => false

/-- The call checks the origin first. -/
def gated : RpcCall → Bool
  | update .. | updateJson _ | updatesJson _ | ping => true
  | _ => false

end RpcCall

/-- A request to the server, through either binding. -/
inductive Request where
  | http (req : HttpRequest)
  | rpc (metadata : String → Option String) (call : RpcCall)

/-- The answer to a request. -/
inductive Answer where
  | http (res : HttpResponse)
  | rpc (result : Except RpcStatus RpcReply)

namespace Request

/-- The origin the request claims. -/
def origin : Request → Option String
  | http req => Http.header? req "x-real-ip"
  | rpc metadata _ => metadata "x-real-ip"

/-- The request asks an update. -/
def ingests : Request → Bool
  | http req => (Http.routeOf req).any Http.Route.ingests
  | rpc _ c => c.ingests

end Request

/-- The request went through: status 200, or a reply. -/
def Answer.succeeded : Answer → Bool
  | .http res => res.status == 200
  | .rpc result => result.isOk

namespace Service

/-- Serves one request: the answer and the service afterwards. -/
def serve (s : Service) : Request → Answer × Service
  | .http req => (.http (Http.respond s req).1, (Http.respond s req).2)
  | .rpc metadata c => (.rpc (s.call metadata c).1, (s.call metadata c).2)

/-- The service after serving requests one after another. -/
def serveAll (s : Service) (reqs : List Request) : Service :=
  reqs.foldl (fun t r => (t.serve r).2) s

end Service

end Telemetry

import Telemetry.Server.Service

/-
  The HTTP binding of the metrics service.

  Routes, matched on the raw path (the query and fragment are ignored, segments are compared
  as written):

  * `GET /` lists every metric as HTML, sorted, with the `;`-joined lines in `metrics-val`
    when they form a valid header value;
  * `GET /value/{type}/{name}` answers a value's display text;
  * `POST /value` answers an enveloped `{id, type}` query with the signed record;
  * `POST /update/{type}/{name}/{value}`, `POST /update` (one record, echoed back signed)
    and `POST /updates` (a batch) ingest;
  * `GET /ping` checks that a database backend answers.

  A parameter is one segment; only the last must be non-empty. The update routes, `/ping`
  and unmatched paths first check the `x-real-ip` origin against the trusted subnet. A path
  that matches no route is not found; a route asked with another method answers "method not
  allowed"; `GET` routes answer `HEAD` without a body. Parameters are percent-decoded and must
  be UTF-8. Bodies over 2 MiB are refused. Listing and query answers are gzipped when the
  client accepts gzip. A failure answers the status of its kind with the kind's text.
-/

namespace Telemetry

/-- An HTTP request: method, target (path and query), headers with lower-case names, body. -/
structure HttpRequest where
  method : String
  target : String
  headers : List (String × List UInt8) := []
  body : ByteArray := ByteArray.empty

/-- An HTTP response. -/
structure HttpResponse where
  status : Nat
  headers : List (String × List UInt8) := []
  body : ByteArray := ByteArray.empty

namespace Http

/-- A byte of a header value that text may be read from: visible ASCII, space or tab. -/
def isVisible (b : UInt8) : Bool := b == 9 || (32 ≤ b && b < 127)

/-- A byte a header value may hold at all. -/
def isHeaderByte (b : UInt8) : Bool := b == 9 || (32 ≤ b && b != 127)

/-- The first value of a header, as text when it is visible ASCII. -/
def header? (req : HttpRequest) (name : String) : Option String :=
  match req.headers.find? (·.1 == name) with
  | some (_, v) => if v.all isVisible then some (String.ofList (v.map fun b => Char.ofNat b.toNat)) else none
  | none => none

/-- Every value of a header that is visible ASCII. -/
def headerValues (req : HttpRequest) (name : String) : List String :=
  (req.headers.filter (·.1 == name)).filterMap fun (_, v) =>
    if v.all isVisible then some (String.ofList (v.map fun b => Char.ofNat b.toNat)) else none

/-- The client accepts a gzipped answer. -/
def acceptsGzip (req : HttpRequest) : Bool :=
  (headerValues req "accept-encoding").any fun v =>
    ((Headers.lowerAscii v).splitOn "gzip").length > 1

/-- The envelope headers of a request. -/
def envelopeHeaders (req : HttpRequest) : Headers := Headers.ofLookup (header? req)

/-- The value of a hexadecimal digit. -/
def hexDigit? (c : Char) : Option Nat :=
  if c.isDigit then some (c.toNat - '0'.toNat)
  else if 'a' ≤ c && c ≤ 'f' then some (c.toNat - 'a'.toNat + 10)
  else if 'A' ≤ c && c ≤ 'F' then some (c.toNat - 'A'.toNat + 10)
  else none

/-- Percent-decodes a segment into bytes; a `%` without two hex digits stays as it is. -/
def percentBytes : List Char → List UInt8
  | [] => []
  | '%' :: a :: b :: rest =>
    match hexDigit? a, hexDigit? b with
    | some x, some y => (x * 16 + y).toUInt8 :: percentBytes rest
    | _, _ => Utf8.encodeChar '%' ++ percentBytes (a :: b :: rest)
  | c :: rest => Utf8.encodeChar c ++ percentBytes rest

/-- A percent-decoded parameter, when it is UTF-8. -/
def decodeParam (raw : String) : Option String := Utf8.decode? (percentBytes raw.toList)

/-- The routes, with their raw parameters. -/
inductive Route where
  | listing
  | valueText (tag name : String)
  | valueJson
  | updateText (tag name value : String)
  | updateJson
  | updatesJson
  | ping
  deriving DecidableEq, Repr

namespace Route

/-- The route of a path. -/
def ofPath (path : String) : Option Route :=
  match (path.toList.splitOn '/').map String.ofList with
  | ["", ""] => some listing
  | ["", "value"] => some valueJson
  | ["", "value", tag, name] => if name.isEmpty then none else some (valueText tag name)
  | ["", "update"] => some updateJson
  | ["", "updates"] => some updatesJson
  | ["", "ping"] => some ping
  | ["", "update", tag, name, value] =>
    if value.isEmpty then none else some (updateText tag name value)
  | _ => none

/-- The route checks the origin first. -/
def gated : Route → Bool
  | updateText .. | updateJson | updatesJson | ping => true
  | _ => false

/-- The route answers `GET` (and `HEAD`); otherwise `POST`. -/
def isGet : Route → Bool
  | listing | valueText .. | ping => true
  | _ => false

/-- The names and raw texts of the route's parameters. -/
def params : Route → List (String × String)
  | valueText tag name => [("mtype", tag), ("name", name)]
  | updateText tag name value => [("mtype", tag), ("name", name), ("value", value)]
  | _ => []

end Route

/-- Largest body a handler reads. -/
def bodyLimit : Nat := 2 * 1024 * 1024

/-- Content types. -/
def textPlain : String := "text/plain; charset=utf-8"

/-- The HTML content type. -/
def textHtml : String := "text/html; charset=utf-8"

/-- The JSON content type. -/
def applicationJson : String := "application/json"

/-- A response with a content type and a text body. -/
def text (status : Nat) (contentType body : String) : HttpResponse :=
  { status, headers := [("content-type", Utf8.encode contentType)], body := body.toUTF8 }

/-- The HTTP status of a kind of failure. -/
def statusOf : ErrorKind → Nat
  | .badRequest => 400
  | .notImplemented => 501
  | .notFound => 404
  | .ipNotAllowed => 403
  | .internalServer | .decrypt | .decompress => 500

/-- The response to a failure: its kind's status and text. -/
def failure (e : MetricError) : HttpResponse := text (statusOf e.kind) textPlain e.kind.text

/-- A body, gzipped when the client accepts it. -/
def negotiated (req : HttpRequest) (contentType : String) (body : ByteArray) : HttpResponse :=
  if acceptsGzip req then
    { status := 200, body := Gzip.compress body,
      headers := [("content-type", Utf8.encode contentType), ("content-encoding", Utf8.encode "gzip")] }
  else { status := 200, headers := [("content-type", Utf8.encode contentType)], body }

/-- Escapes text for HTML. -/
def escapeHtml (s : String) : String :=
  String.join (s.toList.map fun c =>
    if c == '<' then "&lt;" else if c == '>' then "&gt;" else if c == '&' then "&amp;"
    else if c == '"' then "&quot;" else c.toString)

/-- The HTML listing of sorted lines. -/
def renderListing (lines : List String) : String :=
  "<html><head><title>Metrics</title></head><body><ul>\n" ++
  String.join (lines.map fun l => "<li>" ++ escapeHtml l ++ "</li>\n") ++
  "</ul></body></html>\n"

/-- Lines in ascending order. -/
def sorted (lines : List String) : List String := lines.mergeSort fun a b => decide (a ≤ b)

/-- The response to a body over the limit, refused unread. -/
def bodyRefused : HttpResponse :=
  text 413 textPlain "Failed to buffer the request body: length limit exceeded"

/-- Answers an operation: `k` of its result, or its failure with the service as it was. -/
def answer {α : Type} (s : Service) (r : Except MetricError α) (k : α → HttpResponse × Service) :
    HttpResponse × Service :=
  match r with
  | .ok x => k x
  | .error e => (failure e, s)

/-- Answers an operation that ingests: a success answers `res` of its result, with the service
after it persisted as the write policy says. -/
def ingested {α : Type} (s : Service) (r : Except MetricError (α × Service))
    (res : α → HttpResponse) : HttpResponse × Service :=
  answer s r fun (x, s') => (res x, s'.persistAfterIngest)

/-- Runs a route that reads an envelope on the request's body and envelope headers; a body
over the limit is refused unread. -/
def enveloped (s : Service) (req : HttpRequest)
    (k : ByteArray → Headers → HttpResponse × Service) : HttpResponse × Service :=
  if req.body.size > bodyLimit then (bodyRefused, s) else k req.body (envelopeHeaders req)

/-- Runs the handler of a route whose parameters are decoded. -/
def handle (s : Service) (req : HttpRequest) (route : Route) (ps : List String) :
    HttpResponse × Service :=
  match route, ps with
  | .listing, _ =>
    let lines := sorted s.list
    let res := negotiated req textHtml (renderListing lines).toUTF8
    let joined := Utf8.encode (";".intercalate lines)
    (if joined.all isHeaderByte then { res with headers := res.headers ++ [("metrics-val", joined)] }
      else res, s)
  | .valueText .., [tag, name] => answer s (s.value tag name) fun t => (text 200 textPlain t, s)
  | .valueJson, _ => enveloped s req fun body h =>
    answer s (s.valueJson body h) fun r => (negotiated req applicationJson r.toJsonText.toUTF8, s)
  | .updateText .., [tag, name, value] =>
    ingested s (s.update tag name value) fun _ => { status := 200 }
  | .updateJson, _ => enveloped s req fun body h =>
    ingested s (s.updateJson body h) fun r => text 200 applicationJson r.toJsonText
  | .updatesJson, _ => enveloped s req fun body h =>
    ingested s (s.updatesJson body h) fun _ => { status := 200 }
  | .ping, _ => answer s s.ping fun _ => (text 200 textPlain "ok", s)
  | _, _ => ({ status := 500 }, s)

/-- Answers a request. -/
def respond (s : Service) (req : HttpRequest) : HttpResponse × Service :=
  let path := String.ofList (req.target.toList.takeWhile fun c => c != '?' && c != '#')
  let origin := s.checkOrigin (header? req "x-real-ip")
  match Route.ofPath path with
  | none =>
    match origin with
    | .error e => (failure e, s)
    | .ok _ => ({ status := 404 }, s)
  | some route =>
    let gate := if route.gated then origin else .ok ()
    match gate with
    | .error e => (failure e, s)
    | .ok _ =>
      let head := req.method == "HEAD" && route.isGet
      let allowed := if route.isGet then req.method == "GET" || head else req.method == "POST"
      if !allowed then ({ status := 405 }, s)
      else
        let decoded : List (String × Option String) :=
          route.params.map fun (key, raw) => (key, decodeParam raw)
        let (res, s') := match decoded.find? (fun p => p.2.isNone) with
          | some (key, _) =>
            (text 400 textPlain ("Invalid URL: Invalid UTF-8 in `" ++ key ++ "`"), s)
          | none => handle s req route (decoded.filterMap fun (p : String × Option String) => p.2)
        (if head then { res with body := ByteArray.empty } else res, s')

end Http

end Telemetry

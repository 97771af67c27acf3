import Telemetry.Text.Blank

/-
  How the agent reaches the server: the transport names and the HTTP endpoint.
-/

namespace Telemetry

/-- The binding the agent sends its chunks through. -/
inductive Transport where
  | http
  | grpc
  deriving DecidableEq, Repr, Inhabited

namespace Transport

/-- The transport's name. -/
def name : Transport → String
  | http => "http"
  | grpc => "grpc"

/-- ASCII letters in lower case; other characters unchanged. -/
def lowerAscii (s : String) : String := String.ofList (s.toList.map Char.toLower)

/-- Reads a transport name, trimmed and without regard to ASCII case. -/
def parse (s : String) : Except String Transport :=
  let t := lowerAscii (Text.trim s)
  if t == "http" then .ok .http
  else if t == "grpc" then .ok .grpc
  else .error ("unknown transport '" ++ t ++ "' (expected http or grpc)")

end Transport

/-- The batch endpoint of a server address: trimmed, trailing `/` removed, `http://`
added when no scheme is given, then `/updates`. -/
def updatesUrl (address : String) : String :=
  let a := String.ofList ((Text.trim address).toList.reverse.dropWhile (· == '/')).reverse
  (if (a.splitOn "://").length > 1 then a else "http://" ++ a) ++ "/updates"

end Telemetry

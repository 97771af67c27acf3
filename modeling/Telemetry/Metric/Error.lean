import Telemetry.Metric.Kind

/-
  Why an operation on metrics fails, and how each failure is classified.

  `MetricError` names the cause; `MetricError.message?` is its one sentence of text and
  `MetricError.kind` its class (`ErrorKind`), which the bindings turn into a status.
-/

namespace Telemetry

/-- What went wrong while inflating a body. -/
inductive InflateFault where
  /-- The stream is not a well-formed gzip member. -/
  | corrupt
  /-- The inflated body passes the size limit. -/
  | tooLarge (limit : Nat)
  deriving DecidableEq, Repr

/-- Classes of failure, as clients see them. -/
inductive ErrorKind where
  | badRequest
  | notImplemented
  | notFound
  | internalServer
  | decrypt
  | decompress
  | ipNotAllowed
  deriving DecidableEq, Repr

namespace ErrorKind

/-- The text of a class, also the body of an error response. -/
def text : ErrorKind → String
  | badRequest => "bad request"
  | notImplemented => "not implemented"
  | notFound => "not found"
  | internalServer => "internal server error"
  | decrypt => "decrypt error"
  | decompress => "decompress error"
  | ipNotAllowed => "ip address not allowed"

end ErrorKind

/-- Causes of failure of a metric operation. -/
inductive MetricError where
  /-- A type tag other than `gauge` or `counter`. -/
  | unknownType (tag : String)
  /-- Text that is not a value of the kind. -/
  | invalidValue (kind : Kind) (text : String)
  /-- A record without the field its kind needs (`value` or `delta`). -/
  | missingValue (id : String) (kind : Kind) (field : String)
  /-- A name already stored with the other kind. -/
  | typeConflict (id : String) (stored incoming : Kind)
  | hashMismatch (id : String)
  | missingHash (id : String)
  /-- A body that is not the expected JSON. -/
  | malformedJson
  | notFound (id : String) (kind : String)
  | decrypt (reason : String)
  | decompress (fault : InflateFault)
  /-- An origin outside the trusted network. -/
  | ipNotAllowed (origin : String)
  | unavailable (reason : String)
  | internal (reason : String)
  deriving DecidableEq, Repr

namespace InflateFault

/-- The text of an inflate failure, when it has one of its own. -/
def text? : InflateFault → Option String
  | .corrupt => none
  | .tooLarge limit => some ("gzip payload inflates past " ++ toString limit ++ " bytes")

end InflateFault

namespace MetricError

/-- The class of a failure. -/
def kind : MetricError → ErrorKind
  | unknownType _ => .notImplemented
  | invalidValue .. | missingValue .. | typeConflict .. | hashMismatch _ | missingHash _
  | malformedJson => .badRequest
  | notFound .. => .notFound
  | decrypt _ => .decrypt
  | decompress _ => .decompress
  | ipNotAllowed _ => .ipNotAllowed
  | unavailable _ | internal _ => .internalServer

/-- The sentence describing a failure; `none` for a malformed body and a corrupt stream,
whose wording belongs to the reader that found them. -/
def message? : MetricError → Option String
  | unknownType tag => some ("unknown metric type '" ++ tag ++ "'")
  | invalidValue k text => some ("invalid " ++ k.name ++ " value '" ++ text ++ "'")
  | missingValue id k field =>
    some ("metric '" ++ id ++ "' of type " ++ k.name ++ " carries no " ++ field)
  | typeConflict id s i =>
    some ("metric '" ++ id ++ "' is stored as " ++ s.name ++ ", cannot ingest " ++ i.name)
  | hashMismatch id => some ("hash mismatch for metric '" ++ id ++ "'")
  | missingHash id => some ("metric '" ++ id ++ "' carries no hash")
  | malformedJson => none
  | notFound id k => some ("metric '" ++ id ++ "' of type " ++ k ++ " not found")
  | decrypt r => some ("decrypt: " ++ r)
  | decompress f => (InflateFault.text? f).map ("decompress: " ++ ·)
  | ipNotAllowed o => some ("origin '" ++ o ++ "' is outside the trusted subnet")
  | unavailable r => some ("storage unavailable: " ++ r)
  | internal r => some ("internal: " ++ r)

end MetricError

namespace Kind

/-- Reads a type tag; only the exact words `gauge` and `counter` are tags. -/
def parse (tag : String) : Except MetricError Kind :=
  if tag == "gauge" then .ok .gauge
  else if tag == "counter" then .ok .counter
  else .error (.unknownType tag)

end Kind

end Telemetry

/-
  JSON documents as read, before any typing.

  A `Json` keeps what the text says and decides nothing a reader of a particular type would
  decide: a number keeps its text, a string keeps the raw bytes between its quotes (escapes
  still written out), an object keeps its members in order, duplicate names included.
  Typed readers (`Telemetry.Json.Decode`) turn these into values and apply their own rules
  on ranges, escapes and duplicates.
-/

namespace Telemetry

/-- A JSON document, lexically faithful. -/
inductive Json where
  | null
  | bool (b : Bool)
  /-- A number as written, e.g. `-12.5e3`. -/
  | number (text : String)
  /-- The bytes between the quotes of a string, escapes not yet applied. -/
  | string (raw : List UInt8)
  | array (items : List Json)
  /-- Members in order; a name is the raw bytes of its string. -/
  | object (members : List (List UInt8 × Json))
  deriving Inhabited

end Telemetry

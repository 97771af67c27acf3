import Telemetry.Disk
import Telemetry.Json.Decode
import Telemetry.Json.Reader
import Telemetry.Settings.Comments
import Telemetry.Settings.Duration
import Telemetry.Settings.Toml
import Telemetry.Text.Utf8

/-
  Settings files and the values of their fields.

  A settings file is TOML when the extension of its name is `toml` in any case, and JSON
  with `//` line comments otherwise. A JSON file holds an object (or an array read field by
  field); a TOML file holds its root table. Either way each field the settings know is
  absent, a text, a flag, a whole number of seconds, or something else; unknown fields are
  ignored.

  A text field takes a text, a flag field a flag, and a duration field a whole number of
  seconds below `2^64` or a text in the duration syntax. JSON `null` is an absent field.
-/

namespace Telemetry

/-- What a settings source holds for one field. -/
inductive FieldValue where
  | absent
  | text (s : String)
  | flag (b : Bool)
  /-- A whole number in `0 ..< 2^64`. -/
  | seconds (n : Nat)
  | other
  deriving DecidableEq, Repr

namespace FieldValue

/-- The field value of a JSON value. -/
def ofJson : Json → FieldValue
  | .null => absent
  | .bool b => flag b
  | .string raw => match Json.decodeString? raw with
    | some s => text s
    | none => other
  | j@(.number _) => match Json.asU64? j with
    | some n => seconds n
    | none => other
  | _ => other

/-- The field value of a TOML value. -/
def ofToml : Toml → FieldValue
  | .str s => text s
  | .bool b => flag b
  | .int i => if i ≥ 0 then seconds i.toNat else other
  | _ => other

/-- A text field: `none` when the value has another type. -/
def text? : FieldValue → Option (Option String)
  | absent => some none
  | text s => some (some s)
  | _ => none

/-- A flag field: `none` when the value has another type. -/
def flag? : FieldValue → Option (Option Bool)
  | absent => some none
  | flag b => some (some b)
  | _ => none

/-- A duration field: seconds, or a text in the duration syntax. -/
def duration? : FieldValue → Option (Option Duration)
  | absent => some none
  | seconds n => some (some (Duration.ofSecs n))
  | text s => match Duration.parse s with
    | .ok d => some (some d)
    | .error _ => none
  | _ => none

end FieldValue

namespace SettingsFile

/-- The extension of a path's last part, if it has one. -/
def extension (path : String) : Option String :=
  match ((path.splitOn "/").filter fun p => p != "" && p != ".").getLast? with
  | none => none
  | some ".." => none
  | some name =>
    match (name.splitOn ".").reverse with
    | ext :: stem :: more => if stem.isEmpty && more.isEmpty then none else some ext
    | _ => none

/-- A settings file is TOML when its extension is `toml` in any case. -/
def isToml (path : String) : Bool :=
  match extension path with
  | some ext => String.ofList (ext.toList.map Char.toLower) == "toml"
  | none => false

/-- The values a document gives for the named fields, or `none` when it is not a settings
document. -/
def fieldsOf (toml : Bool) (text : String) (names : List String) : Option (List FieldValue) :=
  if toml then do
    let root ← Toml.read? text
    pure (names.map fun n => match root.lookup n with
      | some v => FieldValue.ofToml v
      | none => .absent)
  else do
    let j ← Json.readText? (Comments.strip text)
    let vs ← Json.fields names j
    pure (vs.map fun v => match v with
      | some j => FieldValue.ofJson j
      | none => .absent)

/-- Loads a settings file and decodes its fields with `decode`. -/
def load (disk : Disk) (path : String) (names : List String)
    (decode : List FieldValue → Option α) : Except String α :=
  let unreadable := "Failed to read config file '" ++ path ++ "'"
  let unparsable := "Failed to parse config file '" ++ path ++ "'"
  match disk.read path with
  | .error _ => .error unreadable
  | .ok bytes =>
    match Utf8.decode? bytes.toList with
    | none => .error unreadable
    | some text =>
      match fieldsOf (isToml path) text names >>= decode with
      | some a => .ok a
      | none => .error unparsable

end SettingsFile

end Telemetry

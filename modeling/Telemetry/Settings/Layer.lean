import Telemetry.Settings.CommandLine
import Telemetry.Settings.Duration

/-
  What the settings of both programs share: blank texts count as unset, a text setting read
  from the environment or the command line fails under the name it was given by, and loading
  fails either on the command line or with a message.
-/

namespace Telemetry

namespace Settings

/-- A text that is set and not blank. -/
def nonBlank : Option String → Option String
  | some s => if Text.isBlankText s then none else some s
  | none => none

/-- Reads an optional text with `read`, failing with `label` alone. -/
def labelled (read : String → Except SettingError α) (label : String) :
    Option String → Except String (Option α)
  | none => .ok none
  | some v => match read v with
    | .ok a => .ok (some a)
    | .error _ => .error label

/-- The environment variable of a setting: upper case, `_` for `-`. -/
def envName (name : String) : String :=
  String.ofList (name.toList.map fun c => if c == '-' then '_' else c.toUpper)

/-- The environment variables of a command line's options. -/
def variableNames (options : List OptionSpec) : List String := options.map fun o => envName o.long

/-- The settings file to read: `CONFIG` when it is set and not blank, else the `config`
option. -/
def configPath (lookup : String → Option String) (given : List (String × String)) :
    Option String :=
  nonBlank (lookup "CONFIG") <|> given.lookup "config"

/-- Why loading settings failed. -/
inductive LoadError where
  | args (e : ArgsError)
  | message (text : String)
  deriving DecidableEq, Repr

end Settings

end Telemetry

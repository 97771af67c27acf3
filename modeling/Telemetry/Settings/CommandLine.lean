/-
  Command lines of options that each take one value.

  An option is written `-x value`, `-xvalue`, `-x=value`, `--name value` or `--name=value`;
  `-h`/`--help` and `-V`/`--version` ask for help and version text, and `--` ends the options.
  An option given without a value waits for the next argument, which is its value unless it
  looks like an option.

  An option's value is taken in when the next option is met or the line ends: that is when a
  missing value, a repeated option or an empty path is found. Words that are not options,
  and unknown options, are refused at once, before a waiting option is looked at.
-/

namespace Telemetry

/-- An option taking one value. -/
structure OptionSpec where
  short : Option Char
  long : String
  /-- The value names a file, so it may not be empty. -/
  path : Bool := false
  deriving DecidableEq, Repr

namespace OptionSpec

/-- The help line of an option: `-a, --address <value>`. -/
def usage (o : OptionSpec) : String :=
  let short := match o.short with
    | some c => "-" ++ c.toString ++ ", "
    | none => "    "
  "  " ++ short ++ "--" ++ o.long ++ (if o.path then " <path>" else " <value>")

end OptionSpec

/-- Why a command line was refused. -/
inductive ArgsError where
  | unknownArgument
  | invalidValue
  | argumentConflict
  | tooManyValues
  | displayHelp
  | displayVersion
  deriving DecidableEq, Repr

namespace ArgsError

/-- The name of the kind of refusal. -/
def name : ArgsError → String
  | unknownArgument => "UnknownArgument"
  | invalidValue => "InvalidValue"
  | argumentConflict => "ArgumentConflict"
  | tooManyValues => "TooManyValues"
  | displayHelp => "DisplayHelp"
  | displayVersion => "DisplayVersion"

end ArgsError

namespace CommandLine

/-- The state between arguments. -/
structure Scan where
  /-- Options taken in so far, by long name, with their values. -/
  given : List (String × String) := []
  /-- The option waiting to be taken in, with its value once seen. -/
  pending : Option (OptionSpec × Option String) := none
  /-- `--` was seen: every later argument is a word. -/
  ended : Bool := false

/-- Takes in the waiting option. -/
def settle (st : Scan) : Except ArgsError Scan :=
  match st.pending with
  | none => .ok st
  | some (_, none) => .error .invalidValue
  | some (spec, some v) =>
    if (st.given.lookup spec.long).isSome then .error .argumentConflict
    else if spec.path && v.isEmpty then .error .invalidValue
    else .ok { st with given := st.given ++ [(spec.long, v)], pending := none }

/-- Meets an option: the waiting one is taken in, then this one waits for `value`. -/
def meet (st : Scan) (spec : OptionSpec) (value : Option String) : Except ArgsError Scan := do
  let st ← settle st
  let st := { st with pending := some (spec, value) }
  match value with
  | some _ => settle st
  | none => pure st

/-- Reads one argument. -/
def step (specs : List OptionSpec) (st : Scan) (arg : String) : Except ArgsError Scan :=
  let cs := arg.toList
  if st.ended then .error .unknownArgument
  else if arg == "--" then .ok { st with ended := true }
  else match cs with
    | '-' :: '-' :: body =>
      let name := String.ofList (body.takeWhile (· != '='))
      let value := match body.dropWhile (· != '=') with
        | '=' :: v => some (String.ofList v)
        | _ => none
      if name == "help" || name == "version" then
        if value.isSome then .error .tooManyValues
        else do
          let _ ← settle st
          .error (if name == "help" then .displayHelp else .displayVersion)
      else match specs.find? (·.long == name) with
        | some spec => meet st spec value
        | none => .error .unknownArgument
    | '-' :: c :: rest =>
      if c == 'h' || c == 'V' then do
        let _ ← settle st
        .error (if c == 'h' then .displayHelp else .displayVersion)
      else match specs.find? (·.short == some c) with
        | none => .error .unknownArgument
        | some spec =>
          match rest with
          | [] => meet st spec none
          | '=' :: v => meet st spec (some (String.ofList v))
          | v => meet st spec (some (String.ofList v))
    | _ =>
      match st.pending with
      | some (spec, none) => .ok { st with pending := some (spec, some arg) }
      | _ => .error .unknownArgument

/-- Reads a command line (without the program name): the options given, by long name. -/
def parse (specs : List OptionSpec) (args : List String) : Except ArgsError (List (String × String)) := do
  let st ← args.foldlM (step specs) {}
  let st ← settle st
  pure st.given

end CommandLine

end Telemetry

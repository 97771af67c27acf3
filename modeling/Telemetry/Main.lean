import Telemetry.Server.Settings
import Telemetry.Agent.Settings

/-
  The command line: `server` or `agent`, then that program's options. It reads the program's
  environment variables and its settings file, and prints the settings in force, one per
  line, or why they could not be loaded.
-/

namespace Telemetry

namespace Command

/-- The version both programs report. -/
def version : String := "0.1.0"

/-- The set variables among the given names, with their values. -/
def environment (names : List String) : IO (List (String × String)) :=
  names.filterMapM fun n => do
    pure ((← IO.getEnv n).map fun v => (n, v))

/-- A disk holding the settings file at `path`, or nothing when it cannot be read. -/
def settingsDisk : Option String → IO Disk
  | none => pure {}
  | some path => do
    try
      let bytes ← IO.FS.readBinFile path
      pure ((Disk.write {} path bytes).toOption.getD {})
    catch _ => pure {}

/-- Prints the settings, the help or version text, or why loading failed; answers the exit
code. -/
def finish (specs : List OptionSpec) : Except Settings.LoadError (List String) → IO UInt32
  | .ok lines => do lines.forM IO.println; pure 0
  | .error (.args .displayHelp) => do (specs.map OptionSpec.usage).forM IO.println; pure 0
  | .error (.args .displayVersion) => do IO.println version; pure 0
  | .error (.args e) => do IO.eprintln ("error: " ++ e.name); pure 2
  | .error (.message m) => do IO.eprintln ("Error: " ++ m); pure 1

/-- Loads one program's settings from the process environment and prints them. -/
def run (specs : List OptionSpec)
    (load : Disk → (String → Option String) → List String → Except Settings.LoadError (List String))
    (args : List String) : IO UInt32 := do
  let env ← environment (Settings.variableNames specs)
  let lookup : String → Option String := fun n => env.lookup n
  let path := match CommandLine.parse specs args with
    | .ok given => Settings.configPath lookup given
    | .error _ => none
  finish specs (load (← settingsDisk path) lookup args)

end Command

end Telemetry

/-- Runs the program named by the first argument with the remaining ones. -/
def main (args : List String) : IO UInt32 :=
  match args with
  | "server" :: rest =>
    Telemetry.Command.run Telemetry.ServerLayer.options
      (fun d l a => (Telemetry.ServerSettings.load d l a).map Telemetry.ServerSettings.summary) rest
  | "agent" :: rest =>
    Telemetry.Command.run Telemetry.AgentLayer.options
      (fun d l a => (Telemetry.AgentSettings.load d l a).map Telemetry.AgentSettings.summary) rest
  | _ => do IO.eprintln "usage: telemetry (server | agent) [options]"; pure 2

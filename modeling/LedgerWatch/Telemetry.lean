/-
  LedgerWatch.Telemetry — how logs are written.

  The settings come from the environment. A flag that is not a yes or a no counts as its
  plain default; only where the flag for JSON logs is not set at all does it matter
  whether the node runs in a container.

  A log filter is a list of directives with commas between them, each a target, a level,
  or both with `=` between them. Setting up logs twice is refused, but a filter that
  cannot be read is told first.
-/

import LedgerWatch.Settings.Environment

namespace LedgerWatch

open LedgerWatch.Text

structure LogSettings where
  serviceName : String
  level : String
  console : Bool
  json : Bool
  deriving DecidableEq

namespace LogSettings

def standard : LogSettings := ⟨"ledger-notifier", "info", true, false⟩

def flagOr (raw : String) (fallback : Bool) : Bool := (flag? raw).getD fallback

def ofEnvironment (env : Environment) : LogSettings :=
  let inContainer := (env "KUBERNETES_SERVICE_HOST").isSome || (env "DOCKER_CONTAINER").isSome
  { serviceName := (env "LN_SERVICE_NAME").getD standard.serviceName
    level := ((env "LN_LOG_LEVEL") <|> (env "RUST_LOG")).getD standard.level
    console := ((env "LN_CONSOLE_OUTPUT").map (flagOr · standard.console)).getD standard.console
    json := ((env "LN_JSON_LOGS").map (flagOr · standard.json)).getD inContainer }

def withLevel (s : LogSettings) (level : String) : LogSettings := { s with level := level }

def withJson (s : LogSettings) (json : Bool) : LogSettings := { s with json := json }

end LogSettings

instance : Wire LogSettings where
  toJson s := .obj [("service_name", toJson s.serviceName), ("log_level", toJson s.level),
    ("console_output", toJson s.console), ("json_logs", toJson s.json)]
  ofJson? src j := do
    let [serviceName, level, console, json] ←
      j.fields? ["service_name", "log_level", "console_output", "json_logs"] | none
    return ⟨← ofJson? src serviceName, ← ofJson? src level, ← ofJson? src console, ← ofJson? src json⟩

namespace LogFilter

/-- A level by its name, by its number from 0 to 5, or left empty. -/
def isLevel (cs : List Char) : Bool :=
  ["", "trace", "debug", "info", "warn", "error", "off"].contains (String.ofList (cs.map Char.toLower))
    || (Numeral.readBelow 6 cs).isSome

/-- A directive without `=` is a level or a target, and any text is a target. -/
def isDirective (cs : List Char) : Bool :=
  match cs.splitOn '=' with
  | [_] => true
  | [_, level] => isLevel level
  | _ => false

def isFilter (s : String) : Bool := (s.toList.splitOn ',').all isDirective

end LogFilter

/-- What setting up the logs ends with. The filter in the environment goes first and the configured one is
only looked at when that cannot be read; then logs that are set up already are refused. -/
def LogSettings.install (s : LogSettings) (env : Environment) (installed : Bool) : Except TelemetryError Unit :=
  let fromEnvironment := ((env "RUST_LOG").map LogFilter.isFilter).getD false
  if !(fromEnvironment || LogFilter.isFilter s.level) then .error (.config "invalid filter directive")
  else if installed then .error (.logging "a global default trace dispatcher has already been set")
  else .ok ()

end LedgerWatch

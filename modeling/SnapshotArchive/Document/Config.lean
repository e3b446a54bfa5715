import SnapshotArchive.Json.Printer
import SnapshotArchive.Json.Record
import SnapshotArchive.Session.Config

/-!
# `SnapshotArchive.Document.Config` — configurations as documents

## Contents
- `Config.ofText`: read and validate a configuration; missing fields take their defaults.
- `Config.text`: the compact document of a configuration.
-/

namespace SnapshotArchive

/-- The mode of a name. -/
def ContextMode.ofName? (name : String) : Option ContextMode :=
  if name = ContextMode.on.name then some .on
  else if name = ContextMode.off.name then some .off
  else none

/-- A mode is written as its name, or as an object that maps the name to null. -/
def ContextMode.ofJson? : Json → Option ContextMode
  | .string raw => do ContextMode.ofName? (← Json.unescape? raw)
  | .object [(raw, .null)] => do ContextMode.ofName? (← Json.unescape? raw)
  | _ => none

namespace Config

/-- The names of the fields, in order. -/
def fieldNames : List String := ["run_id", "context_mode", "probe_interval"]

/-- Read a configuration; fields that are not given come from `defaults`. -/
def ofJson? (defaults : Config) (json : Json) : Option Config := do
  let fields ← json.fields? fieldNames
  return {
    runId := ← fields.getD? 0 defaults.runId Json.string?
    contextMode := ← fields.getD? 1 defaults.contextMode ContextMode.ofJson?
    probeInterval := ← fields.getD? 2 defaults.probeInterval (Json.nat? 32) }

/-- Read and validate a configuration. -/
def ofText (defaults : Config) (text : String) : Except Fault Config :=
  match (Json.parse? text).bind (ofJson? defaults) with
  | none => .error .malformedJson
  | some config => config.validate.map fun _ => config

/-- The document of a configuration. -/
def toJson (config : Config) : Json :=
  Json.record [
    ("run_id", .ofString config.runId),
    ("context_mode", .ofString config.contextMode.name),
    ("probe_interval", .ofNat config.probeInterval)]

/-- The compact document of a configuration. -/
def text (config : Config) : String := config.toJson.compact

end Config

end SnapshotArchive

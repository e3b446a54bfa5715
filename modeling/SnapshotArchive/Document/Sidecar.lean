import SnapshotArchive.Json.Printer
import SnapshotArchive.Json.Record
import SnapshotArchive.Session.Sidecar

/-!
# `SnapshotArchive.Document.Sidecar` — anomaly reports as documents

## Contents
- `ofJson?` and `toJson` for `Segment`, `WorstBlock`, `Report` and `Sidecar`. The end of a segment is
  left out while the segment is open.
- `Sidecar.ofText`, `Sidecar.text` (compact), `Sidecar.fileText` (over several lines).
-/

namespace SnapshotArchive

namespace Segment

/-- The names of the fields, in order. -/
def fieldNames : List String := [
  "segment_id", "start_block_index", "end_block_index", "reason_code", "min_ratio",
  "max_unique_ratio_proxy", "suggested_action", "probe_attempts", "probe_successes"]

/-- Read a segment. -/
def ofJson? (json : Json) : Option Segment := do
  let fields ← json.fields? fieldNames
  return {
    id := ← fields.required? 0 Json.string?
    startBlock := ← fields.required? 1 (Json.nat? 64)
    endBlock := ← fields.optional? 2 (Json.nat? 64)
    reasonCode := ← fields.required? 3 Json.string?
    minRatio := ← fields.required? 4 Json.float?
    maxUniqueRatio := ← fields.required? 5 Json.float?
    suggestedAction := ← fields.required? 6 Json.string?
    probeAttempts := ← fields.required? 7 (Json.nat? 32)
    probeSuccesses := ← fields.required? 8 (Json.nat? 32) }

/-- The document of a segment. -/
def toJson (segment : Segment) : Json :=
  Json.record ([
    ("segment_id", .ofString segment.id),
    ("start_block_index", .ofNat segment.startBlock)]
    ++ segment.endBlock.toList.map (fun block => ("end_block_index", Json.ofNat block))
    ++ [("reason_code", .ofString segment.reasonCode),
    ("min_ratio", .ofFloat segment.minRatio),
    ("max_unique_ratio_proxy", .ofFloat segment.maxUniqueRatio),
    ("suggested_action", .ofString segment.suggestedAction),
    ("probe_attempts", .ofNat segment.probeAttempts),
    ("probe_successes", .ofNat segment.probeSuccesses)])

end Segment

namespace WorstBlock

/-- Read a worst block. -/
def ofJson? (json : Json) : Option WorstBlock := do
  let fields ← json.fields? ["block_index", "ratio", "entropy", "codec_id"]
  return {
    block := ← fields.required? 0 (Json.nat? 64)
    ratio := ← fields.required? 1 Json.float?
    entropy := ← fields.required? 2 Json.float?
    codecId := UInt8.ofNat (← fields.required? 3 (Json.nat? 8)) }

/-- The document of a worst block. -/
def toJson (worst : WorstBlock) : Json :=
  Json.record [
    ("block_index", .ofNat worst.block),
    ("ratio", .ofFloat worst.ratio),
    ("entropy", .ofFloat worst.entropy),
    ("codec_id", .ofNat worst.codecId.toNat)]

end WorstBlock

namespace Report

/-- The names of the fields, in order. -/
def fieldNames : List String :=
  ["schema_version", "run_id", "gics_version", "segments", "worst_blocks"]

/-- Read a report. -/
def ofJson? (json : Json) : Option Report := do
  let fields ← json.fields? fieldNames
  return {
    schema := ← fields.required? 0 (Json.nat? 32)
    runId := ← fields.required? 1 Json.string?
    formatLabel := ← fields.required? 2 Json.string?
    segments := ← fields.required? 3 (Json.list? Segment.ofJson?)
    worstBlocks := ← fields.required? 4 (Json.list? WorstBlock.ofJson?) }

/-- The document of a report. -/
def toJson (report : Report) : Json :=
  Json.record [
    ("schema_version", .ofNat report.schema),
    ("run_id", .ofString report.runId),
    ("gics_version", .ofString report.formatLabel),
    ("segments", .array (report.segments.map Segment.toJson)),
    ("worst_blocks", .array (report.worstBlocks.map WorstBlock.toJson))]

end Report

namespace Sidecar

/-- Read a sidecar. Its two reports are a record of their own. -/
def ofJson? (json : Json) : Option Sidecar := do
  let fields ← json.fields? ["filename", "encoder_run_id", "report"]
  let reports ← fields.required? 2 (Json.fields? ["time", "value"])
  return {
    fileName := ← fields.required? 0 Json.string?
    runId := ← fields.required? 1 Json.string?
    time := ← reports.required? 0 Report.ofJson?
    value := ← reports.required? 1 Report.ofJson? }

/-- The document of a sidecar. -/
def toJson (sidecar : Sidecar) : Json :=
  Json.record [
    ("filename", .ofString sidecar.fileName),
    ("encoder_run_id", .ofString sidecar.runId),
    ("report", Json.record [
      ("time", sidecar.time.toJson),
      ("value", sidecar.value.toJson)])]

/-- Read a sidecar from a text. -/
def ofText (text : String) : Except Fault Sidecar :=
  match (Json.parse? text).bind ofJson? with
  | none => .error .malformedJson
  | some sidecar => .ok sidecar

/-- The compact document of a sidecar. -/
def text (sidecar : Sidecar) : String := sidecar.toJson.compact

/-- The content of a sidecar's file. -/
def fileText (sidecar : Sidecar) : String := sidecar.toJson.pretty

end Sidecar

end SnapshotArchive

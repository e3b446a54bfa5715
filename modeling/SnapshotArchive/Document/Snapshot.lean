import SnapshotArchive.Fault
import SnapshotArchive.Json.Record
import SnapshotArchive.Snapshot

/-!
# `SnapshotArchive.Document.Snapshot` — snapshots as documents

A snapshot's items are an object whose keys are item ids in decimal notation. A repeated id
overwrites.

## Contents
- `Item.ofJson?`, `Snapshot.ofJson?`, `Snapshot.ofText`.
-/

namespace SnapshotArchive

/-- Read an item. -/
def Item.ofJson? (json : Json) : Option Item := do
  let fields ← json.fields? ["price", "quantity"]
  return {
    price := ← fields.required? 0 Json.int64?
    quantity := ← fields.required? 1 Json.int64? }

namespace Snapshot

/-- Read an item id off a key, which has to be an integer as written in a document. -/
def idOfKey? (key : List Char) : Option Int64 := do
  let (literal, rest) ← Json.scanNumber? key
  if rest.isEmpty then (Json.number literal).int64? else none

/-- Read the items of a snapshot. -/
def entriesOfJson? : Json → Option (List Entry)
  | .object members =>
      members.mapM fun (key, value) => do
        let id ← idOfKey? key
        let item ← Item.ofJson? value
        return (id, item)
  | _ => none

/-- Read a snapshot. -/
def ofJson? (json : Json) : Option Snapshot := do
  let fields ← json.fields? ["timestamp", "items"]
  let timestamp ← fields.required? 0 Json.int64?
  let entries ← fields.required? 1 entriesOfJson?
  return .ofEntries timestamp entries

/-- Read a snapshot from a text. -/
def ofText (text : String) : Except Fault Snapshot :=
  match (Json.parse? text).bind ofJson? with
  | none => .error .malformedJson
  | some snapshot => .ok snapshot

end Snapshot

end SnapshotArchive

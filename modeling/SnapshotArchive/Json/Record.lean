import SnapshotArchive.Json.Number

/-!
# `SnapshotArchive.Json.Record` — records as objects or arrays

A record is written as an object of named fields, or as an array of its fields in order. In an
object, unknown fields are ignored and a known field must not be repeated.

## Contents
- `Fields`, `Json.fields?`: the fields of a record.
- `Fields.required?`, `Fields.optional?`, `Fields.getD?`: reading one field.
- `Json.string?`, `Json.list?`.
- `Json.record`: the object of a record.
-/

namespace SnapshotArchive

/-- The fields of a record in order; those that are not given are absent. -/
structure Fields where
  isArray : Bool
  values : List (Option Json)

namespace Json

/-- The only value given for a field, which may be absent but not repeated. -/
def single? (members : List (String × Json)) (name : String) : Option (Option Json) :=
  match members.filter (·.1 = name) with
  | [] => some none
  | [(_, value)] => some (some value)
  | _ => none

/-- The fields of a record with the given field names. An array may be shorter than the record but
    not longer. -/
def fields? (names : List String) : Json → Option Fields
  | .object members => do
      let members ← members.mapM fun (key, value) => (unescape? key).map (·, value)
      let values ← names.mapM (single? members)
      return { isArray := false, values }
  | .array elements =>
      if names.length < elements.length then none
      else
        let absent := List.replicate (names.length - elements.length) none
        some { isArray := true, values := elements.map some ++ absent }
  | _ => none

/-- A string. -/
def string? : Json → Option String
  | .string raw => unescape? raw
  | _ => none

/-- A list of values of one kind. -/
def list? {α : Type} (read : Json → Option α) : Json → Option (List α)
  | .array elements => elements.mapM read
  | _ => none

/-- The object of a record. -/
def record (fields : List (String × Json)) : Json :=
  .object (fields.map fun (name, value) => (escape name, value))

end Json

namespace Fields

variable {α : Type}

/-- The value of a field. -/
def get? (fields : Fields) (position : Nat) : Option Json := (fields.values[position]?).join

/-- A field that has to be given. -/
def required? (fields : Fields) (position : Nat) (read : Json → Option α) : Option α := do
  let value ← fields.get? position
  read value

/-- A field that may be null, and in an object may be absent. -/
def optional? (fields : Fields) (position : Nat) (read : Json → Option α) : Option (Option α) :=
  match fields.get? position with
  | none => if fields.isArray then none else some none
  | some .null => some none
  | some value => (read value).map some

/-- A field that has a default. -/
def getD? (fields : Fields) (position : Nat) (default : α) (read : Json → Option α) : Option α :=
  match fields.get? position with
  | none => some default
  | some value => read value

end Fields

end SnapshotArchive

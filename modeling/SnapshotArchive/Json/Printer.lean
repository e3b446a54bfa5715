import SnapshotArchive.Json.Value

/-!
# `SnapshotArchive.Json.Printer` — tree to text

## Contents
- `Json.compact`: no blanks at all.
- `Json.pretty`: one element or member per line, indented by two blanks per level; empty arrays and
  objects stay on one line.
-/

namespace SnapshotArchive.Json

/-- A written string in its quotes. -/
def quote (raw : List Char) : String := "\"" ++ String.ofList raw ++ "\""

/-- A boolean. -/
def boolText (value : Bool) : String := if value then "true" else "false"

mutual

/-- The text without blanks. -/
def compact : Json → String
  | .null => "null"
  | .bool value => boolText value
  | .number literal => String.ofList literal
  | .string raw => quote raw
  | .array elements => "[" ++ compactElements elements ++ "]"
  | .object members => "\x7b" ++ compactMembers members ++ "\x7d"

/-- Elements with commas in between. -/
def compactElements : List Json → String
  | [] => ""
  | [element] => compact element
  | element :: elements => compact element ++ "," ++ compactElements elements

/-- Members with commas in between. -/
def compactMembers : List (List Char × Json) → String
  | [] => ""
  | [(key, value)] => quote key ++ ":" ++ compact value
  | (key, value) :: members => quote key ++ ":" ++ compact value ++ "," ++ compactMembers members

end

/-- A new line at a level of indentation. -/
def newLine (level : Nat) : String := "\n" ++ String.ofList (List.replicate (2 * level) ' ')

mutual

/-- The text over several lines, from a level of indentation on. -/
def prettyAt (level : Nat) : Json → String
  | .null => "null"
  | .bool value => boolText value
  | .number literal => String.ofList literal
  | .string raw => quote raw
  | .array [] => "[]"
  | .array elements => "[" ++ prettyElements (level + 1) elements ++ newLine level ++ "]"
  | .object [] => "\x7b\x7d"
  | .object members => "\x7b" ++ prettyMembers (level + 1) members ++ newLine level ++ "\x7d"

/-- Elements, each on a line of its own. -/
def prettyElements (level : Nat) : List Json → String
  | [] => ""
  | [element] => newLine level ++ prettyAt level element
  | element :: elements =>
      newLine level ++ prettyAt level element ++ "," ++ prettyElements level elements

/-- Members, each on a line of its own. -/
def prettyMembers (level : Nat) : List (List Char × Json) → String
  | [] => ""
  | [(key, value)] => newLine level ++ quote key ++ ": " ++ prettyAt level value
  | (key, value) :: members =>
      newLine level ++ quote key ++ ": " ++ prettyAt level value ++ ","
        ++ prettyMembers level members

end

/-- The text over several lines. -/
def pretty (json : Json) : String := json.prettyAt 0

end SnapshotArchive.Json

import SnapshotArchive.Json.Value

/-!
# `SnapshotArchive.Json.Parser` — text to tree

Strict grammar: one value, surrounded by nothing but blanks. Numbers have no leading zeros or plus
sign and digits on both sides of a point; strings have no bare control characters and only known
escapes; there are no trailing commas.

## Contents
- `Json.scanNumber?`, `Json.scanString?`: the written form of a number or a string at the front.
- `Json.parse?`.
-/

namespace SnapshotArchive.Json

/-- The characters allowed between tokens. -/
def isBlank (c : Char) : Bool := c = ' ' || c = '\n' || c = '\t' || c = '\r'

/-- The text from its first character that is not blank. -/
def skipBlanks (text : List Char) : List Char := text.dropWhile isBlank

/-- Whether a character is a decimal digit. -/
def isDigit (c : Char) : Bool := '0' ≤ c && c ≤ '9'

/-- The digits at the front and what follows them; there has to be one. -/
def scanDigits? (text : List Char) : Option (List Char × List Char) :=
  let digits := text.takeWhile isDigit
  if digits.isEmpty then none else some (digits, text.dropWhile isDigit)

/-- The whole part of a number: a zero, or digits that do not start with one. -/
def scanWhole? (text : List Char) : Option (List Char × List Char) := do
  let (digits, rest) ← scanDigits? text
  if digits.head? = some '0' ∧ 1 < digits.length then none else some (digits, rest)

/-- The fraction of a number, with its point; it may be absent. -/
def scanFraction? : List Char → Option (List Char × List Char)
  | '.' :: rest => do
      let (digits, rest) ← scanDigits? rest
      return ('.' :: digits, rest)
  | text => some ([], text)

/-- The sign of an exponent; it may be absent. -/
def scanSign : List Char → List Char × List Char
  | '+' :: rest => (['+'], rest)
  | '-' :: rest => (['-'], rest)
  | text => ([], text)

/-- The exponent of a number, with its mark; it may be absent. -/
def scanExponent? : List Char → Option (List Char × List Char)
  | c :: rest =>
      if c = 'e' ∨ c = 'E' then do
        let (sign, rest) := scanSign rest
        let (digits, rest) ← scanDigits? rest
        return (c :: sign ++ digits, rest)
      else some ([], c :: rest)
  | [] => some ([], [])

/-- The number at the front, as written, and what follows it. -/
def scanNumber? (text : List Char) : Option (List Char × List Char) := do
  let (sign, text) := match text with
    | '-' :: rest => (['-'], rest)
    | _ => ([], text)
  let (whole, text) ← scanWhole? text
  let (fraction, text) ← scanFraction? text
  let (exponent, text) ← scanExponent? text
  return (sign ++ whole ++ fraction ++ exponent, text)

/-- The string after an opening quote, as written, and what follows its closing quote. -/
def scanString? : List Char → Option (List Char × List Char)
  | '"' :: rest => some ([], rest)
  | '\\' :: 'u' :: a :: b :: c :: d :: rest => do
      let _ ← hexWord? a b c d
      let (raw, rest) ← scanString? rest
      return ('\\' :: 'u' :: a :: b :: c :: d :: raw, rest)
  | '\\' :: c :: rest => do
      let _ ← shortEscape? c
      let (raw, rest) ← scanString? rest
      return ('\\' :: c :: raw, rest)
  | c :: rest =>
      if c = '\\' ∨ c.toNat < 32 then none
      else do
        let (raw, rest) ← scanString? rest
        return (c :: raw, rest)
  | [] => none

mutual

/-- The value at the front. Every call spends one unit of fuel; a text has at most two calls per
    character. -/
def parseValue : Nat → List Char → Option (Json × List Char)
  | 0, _ => none
  | fuel + 1, text =>
      match skipBlanks text with
      | 'n' :: 'u' :: 'l' :: 'l' :: rest => some (.null, rest)
      | 't' :: 'r' :: 'u' :: 'e' :: rest => some (.bool true, rest)
      | 'f' :: 'a' :: 'l' :: 's' :: 'e' :: rest => some (.bool false, rest)
      | '"' :: rest => (scanString? rest).map fun (raw, rest) => (.string raw, rest)
      | '[' :: rest =>
          match skipBlanks rest with
          | ']' :: rest => some (.array [], rest)
          | rest => (parseElements fuel rest).map fun (elements, rest) => (.array elements, rest)
      | '{' :: rest =>
          match skipBlanks rest with
          | '}' :: rest => some (.object [], rest)
          | rest => (parseMembers fuel rest).map fun (members, rest) => (.object members, rest)
      | text => (scanNumber? text).map fun (literal, rest) => (.number literal, rest)

/-- One or more elements and the closing bracket. -/
def parseElements : Nat → List Char → Option (List Json × List Char)
  | 0, _ => none
  | fuel + 1, text => do
      let (value, rest) ← parseValue fuel text
      match skipBlanks rest with
      | ',' :: rest => do
          let (values, rest) ← parseElements fuel rest
          return (value :: values, rest)
      | ']' :: rest => some ([value], rest)
      | _ => none

/-- One or more members and the closing brace. -/
def parseMembers : Nat → List Char → Option (List (List Char × Json) × List Char)
  | 0, _ => none
  | fuel + 1, text =>
      match skipBlanks text with
      | '"' :: rest => do
          let (key, rest) ← scanString? rest
          match skipBlanks rest with
          | ':' :: rest => do
              let (value, rest) ← parseValue fuel rest
              match skipBlanks rest with
              | ',' :: rest => do
                  let (members, rest) ← parseMembers fuel rest
                  return ((key, value) :: members, rest)
              | '}' :: rest => some ([(key, value)], rest)
              | _ => none
          | _ => none
      | _ => none

end

/-- The tree of a text. -/
def parse? (text : String) : Option Json := do
  let chars := text.toList
  let (value, rest) ← parseValue (2 * chars.length + 2) chars
  if (skipBlanks rest).isEmpty then some value else none

end SnapshotArchive.Json

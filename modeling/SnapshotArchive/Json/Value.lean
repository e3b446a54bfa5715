import SnapshotArchive.Hex

/-!
# `SnapshotArchive.Json.Value` — documents as trees

A document is kept as a tree whose numbers and strings are still in their written form. Only what
a reader asks for is interpreted, so a part that nobody reads may hold numbers out of range or
unpaired surrogates.

## Contents
- `Json`: the tree.
- `Json.escape` / `Json.unescape?`: the written form of a string, and back.
- `Json.ofString`, `Json.ofNat`, `Json.ofInt`.
-/

namespace SnapshotArchive

/-- A document or a part of one. -/
inductive Json where
  | null
  | bool (value : Bool)
  | number (literal : List Char)
  | string (raw : List Char)
  | array (elements : List Json)
  | object (members : List (List Char × Json))

namespace Json

/-! ## Strings -/

/-- The written form of a character: quotes, backslashes and control characters are escaped, with a
    short escape where there is one. -/
def escapeChar (c : Char) : List Char :=
  if c = '"' then ['\\', '"']
  else if c = '\\' then ['\\', '\\']
  else if c = '\x08' then ['\\', 'b']
  else if c = '\x0c' then ['\\', 'f']
  else if c = '\n' then ['\\', 'n']
  else if c = '\r' then ['\\', 'r']
  else if c = '\t' then ['\\', 't']
  else if c.toNat < 32 then ['\\', 'u', '0', '0', hexDigit (c.toNat / 16), hexDigit (c.toNat % 16)]
  else [c]

/-- The written form of a string. -/
def escape (text : String) : List Char := text.toList.flatMap escapeChar

/-- The character of a one-letter escape. -/
def shortEscape? (c : Char) : Option Char :=
  if c = '"' ∨ c = '\\' ∨ c = '/' then some c
  else if c = 'b' then some '\x08'
  else if c = 'f' then some '\x0c'
  else if c = 'n' then some '\n'
  else if c = 'r' then some '\r'
  else if c = 't' then some '\t'
  else none

/-- The number that four hexadecimal digits denote. -/
def hexWord? (a b c d : Char) : Option Nat := do
  let a ← hexValue? a
  let b ← hexValue? b
  let c ← hexValue? c
  let d ← hexValue? d
  return ((a * 16 + b) * 16 + c) * 16 + d

/-- The characters of a written string. A leading surrogate has to be followed by a trailing one at
    once, and the two together denote one character. -/
def unescapeChars? : List Char → Option (List Char)
  | [] => some []
  | '\\' :: 'u' :: a :: b :: c :: d :: rest => do
      let unit ← hexWord? a b c d
      if 0xDC00 ≤ unit ∧ unit < 0xE000 then none
      else if 0xD800 ≤ unit ∧ unit < 0xDC00 then
        match rest with
        | '\\' :: 'u' :: a :: b :: c :: d :: rest => do
            let trail ← hexWord? a b c d
            if 0xDC00 ≤ trail ∧ trail < 0xE000 then
              let code := (unit - 0xD800) * 1024 + (trail - 0xDC00) + 0x10000
              (unescapeChars? rest).map (Char.ofNat code :: ·)
            else none
        | _ => none
      else (unescapeChars? rest).map (Char.ofNat unit :: ·)
  | '\\' :: c :: rest => do
      let c ← shortEscape? c
      (unescapeChars? rest).map (c :: ·)
  | c :: rest => (unescapeChars? rest).map (c :: ·)

/-- The string with the given written form. -/
def unescape? (raw : List Char) : Option String := (unescapeChars? raw).map String.ofList

/-! ## Building -/

/-- A string as a document. -/
def ofString (text : String) : Json := .string (escape text)

/-- An integer as a document. -/
def ofInt (n : Int) : Json := .number (toString n).toList

/-- A natural number as a document. -/
def ofNat (n : Nat) : Json := ofInt n

end Json

end SnapshotArchive

import SnapshotArchive.Decimal.Shortest
import SnapshotArchive.Json.Parser

/-!
# `SnapshotArchive.Json.Number` — numbers between text and machine

Integers have to be written as integers: a fraction, an exponent or a minus sign before zero makes a
number a float. Floats accept every number.

A float is read from the digits that fit a 64-bit word: further digits of the whole part only scale
the value, further digits of the fraction are dropped. The word is then multiplied or divided by one
power of ten (at most `10^308`, in several steps if the number is smaller still). The result can
therefore be a neighbour of the nearest float.

## Contents
- `Json.int?`: an integer within bounds; `Json.float?`; `Json.ofFloat`.
-/

namespace SnapshotArchive.Json

/-! ## Integers -/

/-- The number that decimal digits denote. -/
def digitsValue (digits : List Char) : Nat :=
  digits.foldl (fun n c => 10 * n + (c.toNat - 48)) 0

/-- The integer that a number literal denotes, if it is written as one. -/
def literalInt? : List Char → Option Int
  | '-' :: digits =>
      if digits.all isDigit ∧ digitsValue digits ≠ 0 then some (-(digitsValue digits : Int)) else none
  | digits => if digits.all isDigit then some (digitsValue digits) else none

/-- An integer from `low` to `high`. -/
def int? (low high : Int) : Json → Option Int
  | .number literal => do
      let n ← literalInt? literal
      if low ≤ n ∧ n ≤ high then some n else none
  | _ => none

/-- A natural number of at most `bits` bits. -/
def nat? (bits : Nat) (json : Json) : Option Nat :=
  (json.int? 0 ((1 <<< bits - 1 : Nat) : Int)).map Int.toNat

/-- A signed 64-bit word. -/
def int64? (json : Json) : Option Int64 :=
  (json.int? Int64.minValue.toInt Int64.maxValue.toInt).map Int64.ofInt

/-! ## Floats -/

/-- Append whole digits to a word while they fit; also the number of digits that did not. -/
def absorbWhole (word : Nat) : List Char → Nat × Nat
  | [] => (word, 0)
  | c :: digits =>
      let next := 10 * word + (c.toNat - 48)
      if next < UInt64.size then absorbWhole next digits else (word, digits.length + 1)

/-- Append fraction digits to a word while they fit; also the number of digits that did. -/
def absorbFraction (word : Nat) : List Char → Nat × Nat
  | [] => (word, 0)
  | c :: digits =>
      let next := 10 * word + (c.toNat - 48)
      if next < UInt64.size then
        let (word, taken) := absorbFraction next digits
        (word, taken + 1)
      else (word, 0)

/-- The least written exponent that is not computed with: it is too large for a value other than
    zero, or too small for any. -/
def exponentLimit : Nat := 0x80000000

/-- The greatest exponent that is scaled by at once. -/
def maxPower : Nat := 308

/-- A power of ten; exact rounding of the real power. -/
def powerOfTen (n : Nat) : Float := OfScientific.ofScientific 1 false n

/-- Scale by a power of ten. Values too large fail; values too small are scaled down in steps and
    vanish after a few. -/
def scaleByPower : Nat → Float → Int → Option Float
  | steps, x, exponent =>
      if exponent.natAbs ≤ maxPower then
        if 0 ≤ exponent then
          let scaled := x * powerOfTen exponent.toNat
          if scaled.isInf then none else some scaled
        else some (x / powerOfTen exponent.natAbs)
      else if x == 0 then some x
      else if 0 ≤ exponent then none
      else
        match steps with
        | 0 => some 0
        | steps + 1 => scaleByPower steps (x / powerOfTen maxPower) (exponent + maxPower)

/-- The float that the absolute value of a number literal denotes. -/
def magnitude? (literal : List Char) : Option Float := do
  let whole := literal.takeWhile isDigit
  let rest := literal.dropWhile isDigit
  let (fraction, rest) := match rest with
    | '.' :: rest => (rest.takeWhile isDigit, rest.dropWhile isDigit)
    | _ => ([], rest)
  let (word, dropped) := absorbWhole 0 whole
  let (word, taken) := absorbFraction word fraction
  let shift : Int := (dropped : Int) - taken
  match rest with
  | [] => scaleByPower 4 (Float.ofNat word) shift
  | _ :: rest =>
      let (sign, digits) := scanSign rest
      let exponent := digitsValue digits
      let isNegative := sign = ['-']
      if exponentLimit ≤ exponent then
        if word ≠ 0 ∧ !isNegative then none else some 0
      else scaleByPower 4 (Float.ofNat word) (if isNegative then shift - exponent else shift + exponent)

/-- The float that a number denotes. -/
def float? : Json → Option Float
  | .number ('-' :: literal) => (magnitude? literal).map fun x => -x
  | .number literal => magnitude? literal
  | _ => none

/-- A float as a document: its shortest text, or null if it is not finite. -/
def ofFloat (x : Float) : Json :=
  match shortestText? x with
  | some text => .number text.toList
  | none => .null

end SnapshotArchive.Json

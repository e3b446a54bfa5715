import SnapshotArchive.FloatBits

/-!
# `SnapshotArchive.Decimal.Shortest` — the fewest digits that read back

A finite positive float is `m * 2^q` with integers `m` and `q`. The decimals that round to it form an
interval around it, whose ends belong to it exactly when `m` is even. For 1, 2, … 17 digits the two
neighbours of the float on that decimal grid are held against the interval; the first grid with a hit
gives the digits. Of two hits the nearer one wins, and of two equally near ones the even one.

All comparisons are between natural numbers.

## Contents
- `Scaled`: the float and its interval as integers over one denominator.
- `Decimal`: digits and the exponent of the last one; `shortest`.
- `Decimal.text`: positional notation for exponents near zero, scientific notation otherwise.
- `shortestText?`: the text of any finite float.
-/

namespace SnapshotArchive

/-- A float and the ends of its rounding interval, as numerators over one denominator. -/
structure Scaled where
  low : Nat
  mid : Nat
  high : Nat
  denominator : Nat
  closed : Bool

/-- The exact value of a finite positive float. Below a power of two the next float is only half
    as far away. -/
def Scaled.ofFloat (x : Float) : Scaled :=
  let field := exponentField x
  let fraction := fractionField x
  let m := if field = 0 then fraction else fraction + fractionSize
  let biased := max field 1
  let below := if fraction = 0 ∧ 1 < field then 1 else 2
  -- The value is `4 * m * 2 ^ (biased - 1077)`.
  let up := biased - 1077
  { low := (4 * m - below) <<< up
    mid := (4 * m) <<< up
    high := (4 * m + 2) <<< up
    denominator := 1 <<< (1077 - biased)
    closed := m % 2 = 0 }

/-- The same value times a power of ten. -/
def Scaled.shift (s : Scaled) (exponent : Int) : Scaled :=
  let up := Nat.pow 10 exponent.toNat
  { s with
    low := s.low * up
    mid := s.mid * up
    high := s.high * up
    denominator := s.denominator * Nat.pow 10 (-exponent).toNat }

/-- Whether a whole number lies in the interval. -/
def Scaled.holds (s : Scaled) (n : Nat) : Bool :=
  let n := n * s.denominator
  if s.closed then s.low ≤ n ∧ n ≤ s.high else s.low < n ∧ n < s.high

/-- The whole number in the interval next to the value: of two the nearer, of two equally near the
    even one. -/
def Scaled.nearest? (s : Scaled) : Option Nat :=
  let below := s.mid / s.denominator
  let above := below + 1
  match s.holds below, s.holds above with
  | true, true =>
      let toBelow := s.mid - below * s.denominator
      let toAbove := above * s.denominator - s.mid
      if toBelow < toAbove then some below
      else if toAbove < toBelow then some above
      else if below % 2 = 0 then some below
      else some above
  | true, false => some below
  | false, true => some above
  | false, false => none

/-- A positive number in decimal notation: `digits * 10 ^ exponent`. -/
structure Decimal where
  digits : Nat
  exponent : Int
deriving DecidableEq

/-- Move trailing zeros of the digits into the exponent, at most `fuel` of them. -/
def Decimal.trim : Nat → Decimal → Decimal
  | 0, d => d
  | fuel + 1, d =>
      if d.digits % 10 = 0 ∧ d.digits ≠ 0 then
        Decimal.trim fuel { digits := d.digits / 10, exponent := d.exponent + 1 }
      else d

/-- The number of decimal digits of a number. -/
def digitCount (n : Nat) : Nat := (toString n).length

/-- How often a value below one has to be multiplied by ten to reach one, at most `fuel` times. -/
def stepsToOne : (fuel value denominator : Nat) → Nat
  | 0, _, _ => 0
  | fuel + 1, value, denominator =>
      if denominator ≤ value then 0 else stepsToOne fuel (value * 10) denominator + 1

/-- The exponent of the leading decimal digit. -/
def Scaled.magnitude (s : Scaled) : Int :=
  if s.denominator ≤ s.mid then (digitCount (s.mid / s.denominator) : Int) - 1
  else -(stepsToOne 400 s.mid s.denominator : Int)

/-- Try grids of `count`, `count + 1`, … digits. -/
def Scaled.search (s : Scaled) : (tries count : Nat) → Option Decimal
  | 0, _ => none
  | tries + 1, count =>
      let exponent := s.magnitude - count + 1
      match (s.shift (-exponent)).nearest? with
      | some digits => some (Decimal.trim 20 { digits, exponent })
      | none => s.search tries (count + 1)

/-- The shortest decimal that reads back as a finite positive float. Seventeen digits always do. -/
def shortest (x : Float) : Decimal :=
  ((Scaled.ofFloat x).search 17 1).getD { digits := 0, exponent := 0 }

/-- A decimal as text. If the point falls within the digits or up to sixteen places after the first
    one, or at most four zeros follow it before the digits, the notation is positional with at least
    one digit after the point; otherwise it is scientific, and the exponent has a sign and no
    padding. -/
def Decimal.text (d : Decimal) : String :=
  let digits := toString d.digits
  let count := digits.length
  let point := (count : Int) + d.exponent
  let zeros (n : Int) : String := String.ofList (List.replicate n.toNat '0')
  if 0 ≤ d.exponent ∧ point ≤ 16 then digits ++ zeros d.exponent ++ ".0"
  else if 0 < point ∧ point ≤ 16 then
    String.ofList (digits.toList.take point.toNat) ++ "."
      ++ String.ofList (digits.toList.drop point.toNat)
  else if -5 < point ∧ point ≤ 0 then "0." ++ zeros (-point) ++ digits
  else
    let exponent := (if point < 1 then "-" else "+") ++ toString (point - 1).natAbs
    if count = 1 then digits ++ "e" ++ exponent
    else
      String.ofList (digits.toList.take 1) ++ "." ++ String.ofList (digits.toList.drop 1)
        ++ "e" ++ exponent

/-- The shortest text of a finite float; none for infinities and NaN. -/
def shortestText? (x : Float) : Option String :=
  let sign := if hasSign x then "-" else ""
  if infiniteExponent ≤ exponentField x then none
  else if magnitudeBits x = 0 then some (sign ++ "0.0")
  else some (sign ++ (shortest x).text)

end SnapshotArchive

/-!
# `SnapshotArchive.FloatBits` — floats as bit patterns

A 64-bit float is a sign bit, eleven bits of exponent and 52 bits of fraction, from the highest bit
down.

## Contents
- `signBit`, `fractionSize`: where the parts lie.
- `magnitudeBits`, `exponentField`, `fractionField`, `hasSign`: the parts.
- `floatRank`: the position of a float in the total order of all bit patterns, in which -0.0 comes
  just before 0.0.
-/

namespace SnapshotArchive

/-- The value of the sign bit. -/
def signBit : Nat := 0x8000000000000000

/-- How many fraction patterns there are. -/
def fractionSize : Nat := 0x10000000000000

/-- The exponent field of infinities and NaN. -/
def infiniteExponent : Nat := 2047

/-- The bits without the sign bit. -/
def magnitudeBits (x : Float) : Nat := x.toBits.toNat % signBit

/-- Whether the sign bit is set. -/
def hasSign (x : Float) : Bool := signBit ≤ x.toBits.toNat

/-- The exponent bits. -/
def exponentField (x : Float) : Nat := magnitudeBits x / fractionSize

/-- The fraction bits. -/
def fractionField (x : Float) : Nat := magnitudeBits x % fractionSize

/-- The position of a float among all bit patterns: those with the sign bit come first and run
    backwards. -/
def floatRank (x : Float) : Int :=
  if hasSign x then -1 - (magnitudeBits x : Int) else magnitudeBits x

end SnapshotArchive

import SnapshotArchive.Bytes

/-!
# `SnapshotArchive.Hex` — hexadecimal notation

## Contents
- `hexDigit` / `hexValue?`: a digit of a number below 16, and back; both cases are read, lowercase is
  written.
- `hexText`: a byte string, two digits per byte.
-/

namespace SnapshotArchive

/-- The lowercase digit of a number below 16. -/
def hexDigit (n : Nat) : Char := if n < 10 then Char.ofNat (48 + n) else Char.ofNat (87 + n)

/-- The number that a digit stands for. -/
def hexValue? (c : Char) : Option Nat :=
  if '0' ≤ c ∧ c ≤ '9' then some (c.toNat - 48)
  else if 'a' ≤ c ∧ c ≤ 'f' then some (c.toNat - 87)
  else if 'A' ≤ c ∧ c ≤ 'F' then some (c.toNat - 55)
  else none

/-- The digits of a byte string. -/
def hexText (bytes : Bytes) : String :=
  String.ofList (bytes.flatMap fun byte => [hexDigit (byte.toNat / 16), hexDigit (byte.toNat % 16)])

end SnapshotArchive

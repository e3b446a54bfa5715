import SnapshotArchive.Bytes
import SnapshotArchive.Fault

/-!
# `SnapshotArchive.Varint` — words as groups of seven bits

A word is written as base-128 digits, lowest first, one per byte; every byte but the last has its
high bit set. Reading accepts any number of leading-zero groups as long as the whole stays within
ten bytes and the value within 64 bits.

## Contents
- `Varint.write`: the shortest form of a word.
- `Varint.read`: one word off the front of a byte string, with the unread rest. On a fault the rest
  starts after the bytes already consumed.
-/

namespace SnapshotArchive.Varint

/-- The most bytes that a word may occupy. -/
def maxLength : Nat := 10

/-- The base-128 digits of a number, lowest first, all but the last marked by the high bit. -/
def writeNat (n : Nat) : Bytes :=
  if n < 128 then [UInt8.ofNat n] else UInt8.ofNat (n % 128 + 128) :: writeNat (n / 128)
termination_by n

/-- The shortest form of a word. -/
def write (word : UInt64) : Bytes := writeNat word.toNat

/-- Read at most `left` groups. The last admissible group is the tenth of a word and holds its
    one remaining bit. -/
def readGroups : Nat → Bytes → Except Fault Nat × Bytes
  | 0, bytes => (.error .varintTooLong, bytes)
  | _ + 1, [] => (.error .varintPastEnd, [])
  | left + 1, byte :: rest =>
      let low := byte.toNat % 128
      if left = 0 ∧ 1 < low then (.error .varintOverflow, rest)
      else if byte.toNat < 128 then (.ok low, rest)
      else
        match readGroups left rest with
        | (.ok high, rest) => (.ok (low + 128 * high), rest)
        | (.error fault, rest) => (.error fault, rest)

/-- Read one word off the front. -/
def read (bytes : Bytes) : Except Fault UInt64 × Bytes :=
  match readGroups maxLength bytes with
  | (.ok n, rest) => (.ok (UInt64.ofNat n), rest)
  | (.error fault, rest) => (.error fault, rest)

end SnapshotArchive.Varint

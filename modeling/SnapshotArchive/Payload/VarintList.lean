import SnapshotArchive.Varint
import SnapshotArchive.Zigzag

/-!
# `SnapshotArchive.Payload.VarintList` — values as zigzag varints

The plainest payload: every value becomes its zigzag word, every word its varint, one after
another.

## Contents
- `VarintList.write` / `VarintList.read`.
-/

namespace SnapshotArchive.VarintList

/-- The zigzag varints of the values, in order. -/
def write (values : List Int64) : Bytes := values.flatMap fun value => Varint.write (zigzag value)

/-- Read words until the bytes end, but at most `room` of them. The room is checked before a word
    is looked at, so a payload that is too long is a limit fault even if its next word is bad. -/
def readUpTo : Nat → Bytes → Except Fault (List Int64)
  | _, [] => .ok []
  | 0, _ :: _ => .error .tooManyVarints
  | room + 1, byte :: bytes =>
      match Varint.read (byte :: bytes) with
      | (.error fault, _) => .error fault
      | (.ok word, rest) => (readUpTo room rest).map (unzigzag word :: ·)

/-- Read a whole payload. -/
def read (bytes : Bytes) : Except Fault (List Int64) := readUpTo maxBlockItems bytes

end SnapshotArchive.VarintList

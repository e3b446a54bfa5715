import SnapshotArchive.Varint
import SnapshotArchive.Zigzag

/-!
# `SnapshotArchive.Payload.RunLength` — values as runs

A payload is a sequence of varint pairs: how often a value repeats, then the value's zigzag word.
A run is at most `maxRun` long; a longer stretch of equal values is split.

## Contents
- `RunLength.runs`: the runs of a list, cut at `maxRun`.
- `RunLength.write` / `RunLength.read`.
-/

namespace SnapshotArchive.RunLength

/-- A value and how often it repeats. -/
structure Run where
  count : Nat
  value : Int64
deriving DecidableEq

/-- The runs of a list that continues an open run. The open run is closed when another value comes
    or when it is full. -/
def runsFrom (current : Run) : List Int64 → List Run
  | [] => [current]
  | value :: values =>
      if value = current.value ∧ current.count < maxRun then
        runsFrom { current with count := current.count + 1 } values
      else current :: runsFrom { count := 1, value } values

/-- The maximal runs of a list, each cut at `maxRun`. -/
def runs : List Int64 → List Run
  | [] => []
  | value :: values => runsFrom { count := 1, value } values

/-- The varint pair of a run. -/
def Run.write (run : Run) : Bytes :=
  Varint.write (UInt64.ofNat run.count) ++ Varint.write (zigzag run.value)

/-- The payload of the values. -/
def write (values : List Int64) : Bytes := (runs values).flatMap Run.write

/-- Read pairs until the bytes end, expanding to at most `room` values. A run's length is judged
    before its value is read, the room after it. -/
def readUpTo (room : Nat) (bytes : Bytes) : Except Fault (List Int64) :=
  match bytes with
  | [] => .ok []
  | byte :: bytes =>
      match Varint.read (byte :: bytes) with
      | (.error fault, _) => .error fault
      | (.ok word, rest) =>
          let count := word.toNat
          if count = 0 then .error .emptyRun
          else if maxRun < count then .error (.longRun count)
          else
            match Varint.read rest with
            | (.error fault, _) => .error fault
            | (.ok word, rest) =>
                if room < count then .error .tooManyRunValues
                else (readUpTo (room - count) rest).map (List.replicate count (unzigzag word) ++ ·)
termination_by room

/-- Read a whole payload. -/
def read (bytes : Bytes) : Except Fault (List Int64) := readUpTo maxBlockItems bytes

end SnapshotArchive.RunLength

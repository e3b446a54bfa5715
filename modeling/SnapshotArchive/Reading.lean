import SnapshotArchive.Columns
import SnapshotArchive.Context

/-!
# `SnapshotArchive.Reading` — archives back to snapshots

## Contents
- `readColumns`: the columns that a sequence of blocks holds.
- `decode`: the snapshots of an archive. The framing is checked as a whole before any payload, and
  every payload before the columns are put together.
-/

namespace SnapshotArchive

/-- The columns of a sequence of blocks, read from the initial context. -/
def readColumns (blocks : List PlacedBlock) : Except Fault Columns := do
  let (decoded, _) ← Context.withDictionary.readBlocks blocks
  return .gather decoded

/-- The snapshots of an archive. -/
def decode (bytes : Bytes) : Except Fault (List Snapshot) := do
  let (_, blocks) ← parseArchive bytes
  let columns ← readColumns blocks
  columns.assemble

end SnapshotArchive

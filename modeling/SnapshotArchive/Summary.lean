import SnapshotArchive.Digest.Sha256
import SnapshotArchive.Frame.Archive

/-!
# `SnapshotArchive.Summary` — an archive at a glance

The summary is made from the framing alone: no payload is decoded.

## Contents
- `ColumnCounts`, `Summary`.
- `summarize`: the summary of a sequence of blocks; `verify`: that of an archive.
-/

namespace SnapshotArchive

/-- Blocks of a column, and the values that their headers declare. -/
structure ColumnCounts where
  blocks : Nat
  items : Nat
deriving DecidableEq

/-- What the headers of an archive say. -/
structure Summary where
  header : FileHeader
  blockCount : Nat
  /-- The columns that have blocks. -/
  columns : List (Column × ColumnCounts)
  anomalyStarts : Nat
  anomalyEnds : Nat
  quarantined : Nat
  unknownCodecs : Nat
  /-- The SHA-256 digest of the whole archive, in hexadecimal notation. -/
  digest : String
deriving DecidableEq

/-- The values that headers declare, all together. -/
def countItems (headers : List BlockHeader) : Nat :=
  headers.foldl (fun total header => total + header.itemCount.toNat) 0

/-- The counts of a column; none if it has no blocks. -/
def countColumn (headers : List BlockHeader) (column : Column) : Option (Column × ColumnCounts) :=
  match headers.filter (·.column = column) with
  | [] => none
  | own => some (column, { blocks := own.length, items := countItems own })

/-- How many headers carry a flag. -/
def countFlag (headers : List BlockHeader) (flag : UInt8) : Nat :=
  headers.countP fun header => hasFlag header.flags flag

/-- Check the framing of an archive and sum up its headers. -/
def verify (bytes : Bytes) : Except Fault Summary := do
  let (header, blocks) ← parseArchive bytes
  let headers := blocks.map (·.header)
  return {
    header
    blockCount := blocks.length
    columns := Column.all.filterMap (countColumn headers)
    anomalyStarts := countFlag headers anomalyStart
    anomalyEnds := countFlag headers anomalyEnd
    quarantined := countFlag headers SnapshotArchive.quarantined
    unknownCodecs := headers.countP fun header => header.codec?.isNone
    digest := Sha256.hexDigest bytes }

end SnapshotArchive

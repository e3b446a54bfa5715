/-!
# `SnapshotArchive.Column` — the five columns of an archive

A list of snapshots is stored column by column: all timestamps, all snapshot lengths, all item
ids, all prices, all quantities. Every block of an archive belongs to one column and names it by
a one-byte id.

## Contents
- `Column`, `Column.all`: the columns, in the order in which a flush writes them.
- `Column.id` / `Column.ofId?`: the byte that stands for a column, and back.
- `Column.isMonitored`: the columns whose blocks pass a health monitor.
-/

namespace SnapshotArchive

/-- A column of the archive. -/
inductive Column where
  | time
  | snapshotLen
  | itemId
  | value
  | quantity
deriving DecidableEq

namespace Column

/-- Every column, in writing order. -/
def all : List Column := [.time, .snapshotLen, .itemId, .value, .quantity]

/-- The byte that names the column in a block header. -/
def id : Column → UInt8
  | .time => 10
  | .snapshotLen => 11
  | .itemId => 20
  | .value => 30
  | .quantity => 40

/-- The column that a byte names, if it names one. -/
def ofId? (byte : UInt8) : Option Column := all.find? fun column => column.id == byte

/-- The column's name in reports and messages. -/
def name : Column → String
  | .time => "TIME"
  | .snapshotLen => "SNAPSHOT_LEN"
  | .itemId => "ITEM_ID"
  | .value => "VALUE"
  | .quantity => "QUANTITY"

/-- Timestamps and prices are stored as differences, choose their codec block by block and are
    watched by a health monitor. The other columns are plain. -/
def isMonitored : Column → Bool
  | .time | .value => true
  | .snapshotLen | .itemId | .quantity => false

end Column

end SnapshotArchive

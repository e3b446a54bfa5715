import SnapshotArchive.Column
import SnapshotArchive.Fault
import SnapshotArchive.Snapshot

/-!
# `SnapshotArchive.Columns` — snapshots taken apart and put together

Taking apart lists the timestamps, the item counts, and the ids, prices and quantities of all items
in ascending id order. Putting together checks that the five columns fit each other, then cuts
the item columns at the lengths. Archives without a length column hold one item per snapshot.

## Contents
- `Columns`, `Columns.get`, `Columns.ofSnapshots`.
- `Columns.gather`: the columns of a sequence of decoded blocks.
- `Columns.assemble`: the snapshots of five columns.
-/

namespace SnapshotArchive

/-- The values of the five columns. The length column may be absent altogether. -/
structure Columns where
  times : List Int64
  lengths? : Option (List Int64)
  ids : List Int64
  prices : List Int64
  quantities : List Int64
deriving DecidableEq

namespace Columns

/-! ## Taking apart -/

/-- The columns of a list of snapshots. -/
def ofSnapshots (snapshots : List Snapshot) : Columns :=
  let entries := snapshots.flatMap (·.items)
  { times := snapshots.map (·.timestamp)
    lengths? := some (snapshots.map fun snapshot => Int64.ofNat snapshot.items.length)
    ids := entries.map (·.1)
    prices := entries.map (·.2.price)
    quantities := entries.map (·.2.quantity) }

/-- The values of one column; an absent column has none. -/
def get (columns : Columns) : Column → List Int64
  | .time => columns.times
  | .snapshotLen => columns.lengths?.getD []
  | .itemId => columns.ids
  | .value => columns.prices
  | .quantity => columns.quantities

/-! ## Gathering -/

/-- Collect the values of blocks by column, in block order. The length column is present as soon as
    some block belongs to it. -/
def gather (blocks : List (Column × List Int64)) : Columns :=
  let of (column : Column) : List Int64 :=
    blocks.flatMap fun block => if block.1 = column then block.2 else []
  { times := of .time
    lengths? := if blocks.any (·.1 = .snapshotLen) then some (of .snapshotLen) else none
    ids := of .itemId
    prices := of .value
    quantities := of .quantity }

/-! ## Putting together -/

/-- The sum of the lengths on top of `total`. It has to stay within 64 bits. -/
def totalLength (total : Nat) : List Int64 → Except Fault Nat
  | [] => .ok total
  | length :: lengths =>
      if length < 0 then .error (.negativeLength length.toInt)
      else
        let total := total + length.toInt.toNat
        if UInt64.size ≤ total then .error .lengthOverflow else totalLength total lengths

/-- The first value of a list that occurs earlier in it or in `seen`. -/
def firstRepeat? (seen : List Int64) : List Int64 → Option Int64
  | [] => none
  | value :: values =>
      if value ∈ seen then some value else firstRepeat? (value :: seen) values

/-- The snapshot of a timestamp and its entries, whose ids have to differ. -/
def snapshotOf (timestamp : Int64) (entries : List Entry) : Except Fault Snapshot :=
  match firstRepeat? [] (entries.map (·.1)) with
  | some id => .error (.repeatedItem id.toInt timestamp.toInt)
  | none =>
      .ok (entries.foldr (fun entry snapshot => snapshot.insert entry.1 entry.2) (.empty timestamp))

/-- Cut the entries at the lengths and give each piece its timestamp. -/
def carve : List (Int64 × Int64) → List Entry → Except Fault (List Snapshot)
  | [], _ => .ok []
  | (timestamp, length) :: rest, entries => do
      let size := length.toInt.toNat
      let snapshot ← snapshotOf timestamp (entries.take size)
      let snapshots ← carve rest (entries.drop size)
      return snapshot :: snapshots

/-- One snapshot with one item per timestamp and price, as long as both last. -/
def assembleSingles (times prices : List Int64) : List Snapshot :=
  times.zipWith (fun time price => (Snapshot.empty time).insert 1 { price, quantity := 1 }) prices

/-- The snapshots of the columns. -/
def assemble (columns : Columns) : Except Fault (List Snapshot) :=
  match columns.lengths? with
  | none => .ok (assembleSingles columns.times columns.prices)
  | some lengths => do
      if lengths.length ≠ columns.times.length then
        throw (.lengthMismatch columns.times.length lengths.length)
      let total ← totalLength 0 lengths
      if columns.ids.length ≠ total then
        throw (.entryMismatch .itemId total columns.ids.length)
      if columns.prices.length ≠ total then
        throw (.entryMismatch .value total columns.prices.length)
      if columns.quantities.length ≠ total then
        throw (.entryMismatch .quantity total columns.quantities.length)
      let items := columns.prices.zipWith Item.mk columns.quantities
      carve (columns.times.zip lengths) (columns.ids.zip items)

end Columns

end SnapshotArchive

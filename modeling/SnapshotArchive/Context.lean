import SnapshotArchive.Frame.Archive
import SnapshotArchive.Payload.BitPack
import SnapshotArchive.Payload.DictionaryWords
import SnapshotArchive.Payload.RunLength
import SnapshotArchive.Payload.VarintList
import SnapshotArchive.Track

/-!
# `SnapshotArchive.Context` — the running state behind the blocks

A context holds what one block leaves for the next: a track for timestamps, a track for prices and
the dictionary. The writer and the reader of an archive move their contexts in step. A block that
is quarantined moves neither: both go on as if it had not been there.

## Contents
- `Context`, `Context.withDictionary`, `Context.withoutDictionary`.
- `Context.residuals` / `Context.restore`: what a column's values are stored as, and back.
- `Context.advance` / `Context.follow`: the tracks moved past values, and past residuals.
- `Context.writePayload` / `Context.readPayload`: the six payload layouts.
- `Context.writeBlock` / `Context.readBlock`, and `Context.readBlocks` for a sequence.
-/

namespace SnapshotArchive

/-- The running state of a writer or a reader. -/
structure Context where
  time : Track := {}
  value : Track := {}
  dictionary : Option Dictionary := none
deriving DecidableEq

namespace Context

/-- The initial state with an empty dictionary. -/
def withDictionary : Context := { dictionary := some .standard }

/-- The initial state of a writer that does without a dictionary. -/
def withoutDictionary : Context := {}

/-! ## Residuals -/

/-- What is stored of a block's values: second differences for timestamps, first or second
    differences (by the codec) for prices, and the values themselves in the other columns. -/
def residuals (context : Context) (column : Column) (codec : Codec) (values : List Int64) :
    List Int64 :=
  match column with
  | .time => context.time.secondDifferences values
  | .value =>
      if codec.isSecondOrder then context.value.secondDifferences values
      else context.value.firstDifferences values
  | .snapshotLen | .itemId | .quantity => values

/-- The values whose residuals are given. -/
def restore (context : Context) (column : Column) (codec : Codec) (residuals : List Int64) :
    List Int64 :=
  match column with
  | .time => context.time.sumSecond residuals
  | .value =>
      if codec.isSecondOrder then context.value.sumSecond residuals
      else context.value.sumFirst residuals
  | .snapshotLen | .itemId | .quantity => residuals

/-- Move the column's track, if it has one, past the values. -/
def advance (context : Context) (column : Column) (values : List Int64) : Context :=
  match column with
  | .time => { context with time := context.time.after values }
  | .value => { context with value := context.value.after values }
  | .snapshotLen | .itemId | .quantity => context

/-- Move the column's track, if it has one, past residuals. -/
def follow (context : Context) (column : Column) (codec : Codec) (residuals : List Int64) : Context :=
  match column with
  | .time => { context with time := context.time.afterTurns residuals }
  | .value =>
      if codec.isSecondOrder then { context with value := context.value.afterTurns residuals }
      else { context with value := context.value.afterSteps residuals }
  | .snapshotLen | .itemId | .quantity => context

/-! ## Payloads -/

/-- The payload of residuals, and the context with its dictionary moved on. Without a dictionary, a
    dictionary payload is written against an empty one that is then forgotten. -/
def writePayload (context : Context) (codec : Codec) (residuals : List Int64) : Bytes × Context :=
  match codec with
  | .varintDelta | .dodVarint => (VarintList.write residuals, context)
  | .bitpackDelta => (BitPack.write residuals, context)
  | .rleZigzag | .rleDod => (RunLength.write residuals, context)
  | .dictVarint =>
      let (payload, dictionary) := (context.dictionary.getD .standard).write residuals
      (payload, { context with dictionary := context.dictionary.map fun _ => dictionary })

/-- The residuals in a payload, and the context with its dictionary moved on. -/
def readPayload (context : Context) (codec : Codec) (itemCount : Nat) (payload : Bytes) :
    Except Fault (List Int64 × Context) :=
  match codec with
  | .varintDelta | .dodVarint => (VarintList.read payload).map (·, context)
  | .bitpackDelta => (BitPack.read payload itemCount).map (·, context)
  | .rleZigzag | .rleDod => (RunLength.read payload).map (·, context)
  | .dictVarint =>
      match context.dictionary with
      | none => .error .noDictionary
      | some dictionary =>
          let (residuals, dictionary) := dictionary.read payload
          residuals.map (·, { context with dictionary := some dictionary })

/-! ## Blocks -/

/-- The payload of a block of values, and the context past them. -/
def encode (context : Context) (column : Column) (codec : Codec) (values : List Int64) :
    Bytes × Context :=
  let (payload, moved) := context.writePayload codec (context.residuals column codec values)
  (payload, moved.advance column values)

/-- The block of a column's values, and the context that follows it. -/
def writeBlock (context : Context) (column : Column) (codec : Codec) (flags : UInt8)
    (values : List Int64) : Block × Context :=
  let (payload, moved) := context.encode column codec values
  let block := Block.make column codec values.length flags payload
  (block, if block.header.isCommittable then moved else context)

/-- The values of a block, and the context that follows it. A block of an unknown codec is skipped:
    it has no values. -/
def readBlock (context : Context) (block : PlacedBlock) : Except Fault (List Int64 × Context) :=
  match block.header.codec? with
  | none => .ok ([], context)
  | some codec => do
      let header := block.header
      let declared := header.itemCount.toNat
      let (residuals, moved) ← context.readPayload codec declared block.payload
      if residuals.length ≠ declared then
        throw (.countMismatch header.column block.offset residuals.length declared)
      let values := moved.restore header.column codec residuals
      return (values,
        if header.isCommittable then moved.follow header.column codec residuals else context)

/-- The values of every block with the block's column, and the context after the last. -/
def readBlocks (context : Context) :
    List PlacedBlock → Except Fault (List (Column × List Int64) × Context)
  | [] => .ok ([], context)
  | block :: blocks => do
      let (values, context) ← context.readBlock block
      let (decoded, context) ← context.readBlocks blocks
      return ((block.header.column, values) :: decoded, context)

end Context

end SnapshotArchive

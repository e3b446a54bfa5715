import SnapshotArchive.Columns
import SnapshotArchive.Context
import SnapshotArchive.Session.Telemetry

/-!
# `SnapshotArchive.Session.Writer` — columns to blocks

Every column is cut into chunks of `blockSize` values, and every chunk becomes a block. A chunk of a
plain column is written as varints. A chunk of a monitored column is first encoded with the codec
that suits its figures; the size of that trial decides about its route. On the core path the trial
is the block. In quarantine the chunk is written with the column's fallback codec instead, and the
context stays where it was.

## Contents
- `chunks`: a list in pieces.
- `Column.fallback`, `Context.chooseCodec`: the codec of a block.
- `Writer`, `Writer.writeMonitored`, `Writer.writePlain`, `Writer.writeColumns`.
-/

namespace SnapshotArchive

/-- The number of raw values per block. -/
def blockSize : Nat := 1000

/-- Consecutive pieces of `size` elements each, the last possibly shorter. A size of zero counts as
    one. -/
def chunks {α : Type} (size : Nat) : List α → List (List α)
  | [] => []
  | x :: xs => (x :: xs.take (size - 1)) :: chunks size (xs.drop (size - 1))
termination_by xs => xs.length
decreasing_by
  simp only [List.length_drop, List.length_cons]
  omega

/-! ## Codecs -/

/-- The codec of quarantined blocks and of data that no other codec suits. -/
def Column.fallback : Column → Codec
  | .time => .dodVarint
  | .value | .snapshotLen | .itemId | .quantity => .varintDelta

/-- The codec for a chunk of a monitored column: the dictionary for prices that repeat a lot, runs
    for values on a line, bit fields for small steps, and the fallback otherwise. The dictionary is
    chosen only if the context has one and it can spell every residual. -/
def Context.chooseCodec (context : Context) (column : Column) (values : List Int64)
    (metrics : Metrics) : Codec :=
  if column = .value ∧ metrics.uniqueRatio < 0.5 ∧ context.dictionary.isSome
      ∧ (context.residuals column .dictVarint values).all fitsLiteral then .dictVarint
  else if 0.9 < metrics.zeroTurnRatio then .rleDod
  else if metrics.stepP90 < 127 then .bitpackDelta
  else column.fallback

/-! ## Writing -/

/-- The running state behind the blocks: the context and the two monitors. -/
structure Writer where
  context : Context
  time : Monitor
  value : Monitor
deriving DecidableEq

/-- A block and the record of how it came about. -/
structure Written where
  block : Block
  record : BlockRecord
deriving DecidableEq

namespace Writer

/-- The monitor of a monitored column. -/
def monitor (writer : Writer) (column : Column) : Monitor :=
  if column = .time then writer.time else writer.value

/-- Replace the monitor of a monitored column. -/
def setMonitor (writer : Writer) (column : Column) (monitor : Monitor) : Writer :=
  if column = .time then { writer with time := monitor } else { writer with value := monitor }

/-- Raw bytes per byte of a block, header included. -/
def trialRatio (itemCount payloadSize : Nat) : Float :=
  countRatio (itemCount * rawValueSize) (payloadSize + BlockHeader.size)

/-- Write a chunk of a monitored column. -/
def writeMonitored (writer : Writer) (column : Column) (values : List Int64) : Written × Writer :=
  let context := writer.context
  let monitor := writer.monitor column
  let metrics := Metrics.ofValues values
  let chosen := context.chooseCodec column values metrics
  let (trial, moved) := context.encode column chosen values
  let probeRatio := trialRatio values.length trial.length
  let route := monitor.route metrics probeRatio monitor.nextIndex
  let codec := if route.isQuarantine then column.fallback else chosen
  let payload := if route.isQuarantine then (context.encode column codec values).1 else trial
  let context := if route.isQuarantine then context else moved
  let (verdict, monitor) := monitor.update metrics {
    route, probeRatio
    index := monitor.nextIndex
    input := values.length * rawValueSize
    output := payload.length
    headerSize := BlockHeader.size
    codecId := codec.id }
  ({ block := Block.make column codec values.length verdict.flags payload
     record := {
       column, codec
       itemCount := values.length
       payloadSize := payload.length
       flags := verdict.flags
       watch := some { route, trained := verdict.trained, metrics } } },
    { writer with context }.setMonitor column monitor)

/-- Write a chunk of a plain column. It leaves no trace. -/
def writePlain (column : Column) (values : List Int64) : Written :=
  let payload := VarintList.write values
  { block := Block.make column .varintDelta values.length 0 payload
    record := {
      column
      codec := .varintDelta
      itemCount := values.length
      payloadSize := payload.length
      flags := 0
      watch := none } }

/-- Write a chunk. -/
def writeChunk (writer : Writer) (column : Column) (values : List Int64) : Written × Writer :=
  if column.isMonitored then writer.writeMonitored column values
  else (writePlain column values, writer)

/-- Write chunks one after another. -/
def writeChunks (writer : Writer) : List (Column × List Int64) → List Written × Writer
  | [] => ([], writer)
  | (column, values) :: rest =>
      let (written, writer) := writer.writeChunk column values
      let (others, writer) := writer.writeChunks rest
      (written :: others, writer)

/-- The chunks of all columns in writing order. -/
def chunksOf (columns : Columns) : List (Column × List Int64) :=
  Column.all.flatMap fun column => (chunks blockSize (columns.get column)).map (column, ·)

/-- Write all columns. -/
def writeColumns (writer : Writer) (columns : Columns) : List Written × Writer :=
  writer.writeChunks (chunksOf columns)

end Writer

end SnapshotArchive

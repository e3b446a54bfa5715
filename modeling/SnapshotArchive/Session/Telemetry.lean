import SnapshotArchive.Codec
import SnapshotArchive.Health.Monitor

/-!
# `SnapshotArchive.Session.Telemetry` — what a session did

## Contents
- `BlockRecord`: what happened to one block; `Watch` for blocks that passed a monitor.
- `Telemetry`, `Telemetry.ofTallies`: the blocks of the latest flush and the totals of the run.
-/

namespace SnapshotArchive

/-- What the monitor of a block's column saw and did. -/
structure Watch where
  route : Route
  trained : Bool
  metrics : Metrics
deriving DecidableEq

/-- What happened to one block. -/
structure BlockRecord where
  column : Column
  codec : Codec
  itemCount : Nat
  payloadSize : Nat
  flags : UInt8
  /-- Absent for columns without a monitor. -/
  watch : Option Watch
deriving DecidableEq

/-- The size in bytes of one raw value. -/
def rawValueSize : Nat := 8

namespace BlockRecord

/-- The size of the raw values. -/
def rawSize (record : BlockRecord) : Nat := record.itemCount * rawValueSize

/-- The size of the written block. -/
def size (record : BlockRecord) : Nat := BlockHeader.size + record.payloadSize

/-- Raw bytes per payload byte. -/
def ratio (record : BlockRecord) : Float := Monitor.payloadRatio record.rawSize record.payloadSize

/-- Whether the block is quarantined. -/
def isQuarantined (record : BlockRecord) : Bool := hasFlag record.flags quarantined

end BlockRecord

/-- The blocks of the latest flush, the totals of the whole run over the monitored columns, and the
    name under which the anomaly report was handed over. -/
structure Telemetry where
  blocks : List BlockRecord := []
  tally : Tally := {}
  sidecar : Option String := none
deriving DecidableEq

/-- Replace the totals by the sum over the columns. -/
def Telemetry.setTotals (telemetry : Telemetry) (tallies : List Tally) : Telemetry :=
  { telemetry with tally := Tally.sum tallies }

end SnapshotArchive

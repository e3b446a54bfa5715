import SnapshotArchive.FloatBits
import SnapshotArchive.Ranking

/-!
# `SnapshotArchive.Health.Report` — what a health monitor has to tell

## Contents
- `Segment`: one contiguous stretch of quarantined blocks; `Segment.start`, `Segment.extend`,
  `Segment.close`.
- `WorstBlock` and `rankWorst`: the ten blocks that compressed worst.
- `Report`: all segments and the worst blocks of one column.
-/

namespace SnapshotArchive

/-! ## Extremes

A NaN loses against every number, and of two equal floats the first one is kept. -/

/-- The lesser of two floats. -/
def floatMin (a b : Float) : Float := if a.isNaN then b else if b < a then b else a

/-- The greater of two floats. -/
def floatMax (a b : Float) : Float := if a.isNaN then b else if a < b then b else a

/-! ## Segments -/

/-- A stretch of quarantined blocks. Its end is unknown while it is open. -/
structure Segment where
  id : String
  startBlock : Nat
  endBlock : Option Nat
  reasonCode : String
  minRatio : Float
  maxUniqueRatio : Float
  suggestedAction : String
  probeAttempts : Nat
  probeSuccesses : Nat
deriving DecidableEq

namespace Segment

/-- The `number`-th segment of a column, opened by a block. -/
def start (number block : Nat) (reasonCode : String) (ratio uniqueRatio : Float) : Segment where
  id := "seg_" ++ toString number
  startBlock := block
  endBlock := none
  reasonCode := reasonCode
  minRatio := ratio
  maxUniqueRatio := uniqueRatio
  suggestedAction := "INSPECT"
  probeAttempts := 0
  probeSuccesses := 0

/-- Take in one more quarantined block, which may be a probe and may have succeeded as one. -/
def extend (segment : Segment) (isProbe succeeded : Bool) (ratio uniqueRatio : Float) : Segment :=
  { segment with
    minRatio := floatMin segment.minRatio ratio
    maxUniqueRatio := floatMax segment.maxUniqueRatio uniqueRatio
    probeAttempts := segment.probeAttempts + isProbe.toNat
    probeSuccesses := segment.probeSuccesses + succeeded.toNat }

/-- Close the segment at a block. -/
def close (segment : Segment) (block : Nat) : Segment := { segment with endBlock := some block }

end Segment

/-! ## Worst blocks -/

/-- A block that compressed badly. -/
structure WorstBlock where
  block : Nat
  ratio : Float
  entropy : Float
  codecId : UInt8
deriving DecidableEq

/-- How many of the worst blocks are kept. -/
def worstKept : Nat := 10

/-- Worse blocks, those of lower ratio, come first. -/
def WorstBlock.isWorse (a b : WorstBlock) : Bool := floatRank a.ratio < floatRank b.ratio

/-- Enter a block into the list of the worst. -/
def rankWorst (worst : List WorstBlock) (block : WorstBlock) : List WorstBlock :=
  (insertStable WorstBlock.isWorse block worst).take worstKept

/-! ## Reports -/

/-- The layout version of a report. -/
def reportSchema : Nat := 1

/-- The name of the archive format's revision in reports. -/
def formatLabel : String := "1.2"

/-- Everything a monitor has to tell about its column. -/
structure Report where
  schema : Nat
  runId : String
  formatLabel : String
  segments : List Segment
  worstBlocks : List WorstBlock
deriving DecidableEq

end SnapshotArchive

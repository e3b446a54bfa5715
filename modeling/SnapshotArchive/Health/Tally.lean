import SnapshotArchive.Health.Route
import SnapshotArchive.Statistics

/-!
# `SnapshotArchive.Health.Tally` — blocks and bytes by path

## Contents
- `Tally`: how many blocks went each way, and how many bytes went in and came out.
- `Tally.record`, `Tally.add`: count a block; add two tallies.
- `Tally.coreRatio`, `Tally.quarantineRate`, `Tally.totalBlocks`.
-/

namespace SnapshotArchive

/-- Blocks and bytes by path. -/
structure Tally where
  coreBlocks : Nat := 0
  coreInput : Nat := 0
  coreOutput : Nat := 0
  quarantineBlocks : Nat := 0
  quarantineInput : Nat := 0
  quarantineOutput : Nat := 0
deriving DecidableEq

namespace Tally

/-- Count a block that turned `input` bytes into `output` bytes. -/
def record (tally : Tally) (path : Path) (input output : Nat) : Tally :=
  match path with
  | .core =>
      { tally with
        coreBlocks := tally.coreBlocks + 1
        coreInput := tally.coreInput + input
        coreOutput := tally.coreOutput + output }
  | .quarantine =>
      { tally with
        quarantineBlocks := tally.quarantineBlocks + 1
        quarantineInput := tally.quarantineInput + input
        quarantineOutput := tally.quarantineOutput + output }

/-- The sum of two tallies. -/
def add (a b : Tally) : Tally where
  coreBlocks := a.coreBlocks + b.coreBlocks
  coreInput := a.coreInput + b.coreInput
  coreOutput := a.coreOutput + b.coreOutput
  quarantineBlocks := a.quarantineBlocks + b.quarantineBlocks
  quarantineInput := a.quarantineInput + b.quarantineInput
  quarantineOutput := a.quarantineOutput + b.quarantineOutput

/-- The sum of a list of tallies. -/
def sum (tallies : List Tally) : Tally := tallies.foldl add {}

/-- All blocks. -/
def totalBlocks (tally : Tally) : Nat := tally.coreBlocks + tally.quarantineBlocks

/-- Input per output on the core path; no output counts as one byte. -/
def coreRatio (tally : Tally) : Float := countRatio tally.coreInput (max tally.coreOutput 1)

/-- The share of blocks that were quarantined; zero without blocks. -/
def quarantineRate (tally : Tally) : Float :=
  if tally.totalBlocks = 0 then 0 else countRatio tally.quarantineBlocks tally.totalBlocks

end Tally

end SnapshotArchive

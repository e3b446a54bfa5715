import SnapshotArchive.Ranking
import SnapshotArchive.Track

/-!
# `SnapshotArchive.Statistics` — what a block of raw values looks like

Four cheap figures of a block steer the choice of its codec and the health monitor.

## Contents
- `Metrics`, `Metrics.ofValues`: the figures of a list of values.
- `rank90`, `nearestRank90`: the 90th percentile by nearest rank.
- `Metrics.isHighEntropy`, `Regime`, `Metrics.regime`: the coarse class of a block.
-/

namespace SnapshotArchive

/-- The figures of a block. -/
structure Metrics where
  /-- Distinct values per value. -/
  uniqueRatio : Float
  /-- Distinct first differences per value. -/
  uniqueDeltaRatio : Float
  /-- The share of second differences that are zero. -/
  zeroTurnRatio : Float
  /-- The 90th percentile of the magnitudes of the first differences. -/
  stepP90 : Nat
deriving DecidableEq

/-- The first differences inside a list. -/
def innerSteps : List Int64 → List Int64
  | [] => []
  | value :: values => differences value values

/-- How often a value equals the one before it. -/
def repeatCount (values : List Int64) : Nat :=
  (values.zip values.tail).countP fun (before, value) => value = before

/-- How many different values a list has: once they are in order equal ones stand together, and every
    value but the repeats is a new one. -/
def distinctCount (values : List Int64) : Nat :=
  values.length - repeatCount (sortStable (fun a b => decide (a < b)) values)

/-- The least whole number that is not below a number. -/
def ceilNat (x : Float) : Nat :=
  let whole := x.toUInt64
  if whole.toFloat < x then whole.toNat + 1 else whole.toNat

/-- The rank of the 90th percentile among `size` ordered values, counted from 1: nine tenths of the
    size, rounded up. The product is one of floats, and is kept among the ranks that there are. -/
def rank90 (size : Nat) : Nat := max 1 (min (ceilNat (Float.ofNat size * 0.9)) size)

/-- The 90th percentile by nearest rank; zero of nothing. -/
def nearestRank90 (magnitudes : List Nat) : Nat :=
  (sortStable (fun a b => decide (a < b)) magnitudes).getD (rank90 magnitudes.length - 1) 0

/-- A quotient of two counts. -/
def countRatio (part whole : Nat) : Float := Float.ofNat part / Float.ofNat whole

namespace Metrics

/-- The figures of no values. -/
def zero : Metrics := { uniqueRatio := 0, uniqueDeltaRatio := 0, zeroTurnRatio := 0, stepP90 := 0 }

/-- The figures of a list of values. -/
def ofValues (values : List Int64) : Metrics :=
  if values.isEmpty then zero
  else
    let steps := innerSteps values
    { uniqueRatio := countRatio (distinctCount values) values.length
      uniqueDeltaRatio := countRatio (distinctCount steps) values.length
      zeroTurnRatio :=
        if steps.length < 2 then 0 else countRatio (repeatCount steps) (steps.length - 1)
      stepP90 := nearestRank90 (steps.map fun step => step.toInt.natAbs) }

/-- Nearly all values and nearly all steps differ: noise that no codec can shrink. -/
def isHighEntropy (metrics : Metrics) : Bool :=
  decide (0.85 < metrics.uniqueRatio) && decide (0.85 < metrics.uniqueDeltaRatio)

end Metrics

/-- The coarse class of a block. -/
inductive Regime where
  /-- Values on a line, or all equal. -/
  | ordered
  | mixed
  | highEntropy
deriving DecidableEq

/-- The class's name in reports. -/
def Regime.name : Regime → String
  | .ordered => "ORDERED"
  | .mixed => "MIXED"
  | .highEntropy => "HIGH_ENTROPY"

/-- The class of a block with the given figures. -/
def Metrics.regime (metrics : Metrics) : Regime :=
  if metrics.isHighEntropy then .highEntropy
  else if 0.9 < metrics.zeroTurnRatio then .ordered
  else .mixed

end SnapshotArchive

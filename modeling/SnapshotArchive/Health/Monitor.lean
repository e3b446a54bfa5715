import SnapshotArchive.Frame.Block
import SnapshotArchive.Health.Report
import SnapshotArchive.Health.Tally

/-!
# `SnapshotArchive.Health.Monitor` — the compression health of one column

A monitor sees the blocks of one column in order. For each it first decides the route
(`Monitor.route`, which changes nothing) and then takes in what became of the block
(`Monitor.update`, the only place where its state moves).

While the column is healthy, a moving average of the compression ratio serves as the baseline. A
block far below it, or full of new values, opens a quarantine; the baseline at that moment is the
reference to come back to. Every `probeInterval`-th block is a probe, and three probes in a row that
come close enough to the reference end the quarantine. Blocks of noise are quarantined whatever
their ratio and never count as good probes. A quarantine does not train the baseline, and neither
does the block that ends it.

## Contents
- `Baseline`, `Phase`, `Monitor`, `Monitor.new`.
- `Monitor.anomaly?`, `Monitor.recovers`, `Monitor.route`: the tests and the decision.
- `Outcome`, `Verdict`, `Monitor.update`: taking in a block.
- `Monitor.report`: the report, which closes an open segment.
-/

namespace SnapshotArchive

/-! ## State -/

/-- Moving averages over the healthy blocks of a column. -/
structure Baseline where
  ratio : Float
  deviation : Float
  uniqueness : Float
deriving DecidableEq

/-- What is assumed of a column before its first healthy block. -/
def Baseline.initial : Baseline := { ratio := 2.0, deviation := 0.5, uniqueness := 0.5 }

/-- Where a monitor stands. -/
inductive Phase where
  | normal
  /-- In quarantine: the ratio to come back to, how many probes in a row have succeeded, and the
      segment, unless a report has closed it. -/
  | quarantined (reference : Float) (streak : Nat) (segment : Option Segment)
deriving DecidableEq

/-- Whether the column is quarantined. -/
def Phase.isQuarantined : Phase → Bool
  | .normal => false
  | .quarantined .. => true

/-- The phase's name in reports. -/
def Phase.name : Phase → String
  | .normal => "NORMAL"
  | .quarantined .. => "QUARANTINE_ACTIVE"

/-- The monitor of one column. -/
structure Monitor where
  runId : String
  probeInterval : Nat
  phase : Phase
  baseline : Baseline
  trainedBlocks : Nat
  totalBlocks : Nat
  lastIndex : Nat
  tally : Tally
  closed : List Segment
  worst : List WorstBlock
deriving DecidableEq

namespace Monitor

/-- A monitor before the first block. A probe interval of zero counts as one. -/
def new (runId : String) (probeInterval : Nat) : Monitor where
  runId := runId
  probeInterval := max probeInterval 1
  phase := .normal
  baseline := .initial
  trainedBlocks := 0
  totalBlocks := 0
  lastIndex := 0
  tally := {}
  closed := []
  worst := []

/-- The index of the next block; blocks are counted from 1. -/
def nextIndex (monitor : Monitor) : Nat := monitor.totalBlocks + 1

/-- Whether a block of this index is a probe. -/
def isProbe (monitor : Monitor) (index : Nat) : Bool := index % monitor.probeInterval = 0

/-- The ratio that blocks are held against: the baseline, frozen while in quarantine. -/
def referenceRatio (monitor : Monitor) : Float :=
  match monitor.phase with
  | .normal => monitor.baseline.ratio
  | .quarantined reference .. => reference

/-! ## Decisions -/

/-- How many deviations below the reference make a drop. -/
def dropDeviations : Float := 3.0

/-- How many deviations below the reference a good probe may be. -/
def recoveryDeviations : Float := 10.0

/-- The least deviation that a probe is judged by. -/
def leastRecoveryDeviation : Float := 0.1

/-- How many good probes in a row end a quarantine. -/
def recoveryProbes : Nat := 3

/-- The deviation that a drop is judged by. Three of it are at most nine tenths of the reference. -/
def dropDeviation (monitor : Monitor) : Float :=
  let reference := monitor.referenceRatio
  let deviation := monitor.baseline.deviation
  if reference * 0.9 < deviation * dropDeviations then reference * 0.9 / dropDeviations
  else deviation

/-- Why a block of this ratio would be an anomaly, if it would. -/
def anomaly? (monitor : Monitor) (ratio : Float) (metrics : Metrics) : Option Reason :=
  let reference := monitor.referenceRatio
  let unique := metrics.uniqueRatio
  if ratio < reference - dropDeviations * monitor.dropDeviation then some .ratioDrop
  else if monitor.baseline.uniqueness * 1.5 < unique ∧ 0.5 < unique ∧ ratio < reference then
    some .entropyBurst
  else none

/-- Whether a probe of this ratio comes close enough to the reference. -/
def recovers (monitor : Monitor) (probeRatio : Float) : Bool :=
  monitor.referenceRatio
    - recoveryDeviations * floatMax monitor.baseline.deviation leastRecoveryDeviation ≤ probeRatio

/-- Raw bytes per payload byte; an empty payload counts as one byte. -/
def payloadRatio (input output : Nat) : Float := countRatio input (max output 1)

/-- Whether a block of these sizes would be an anomaly. -/
def wouldBeAnomaly (monitor : Monitor) (input output : Nat) (metrics : Metrics) : Bool :=
  (monitor.anomaly? (payloadRatio input output) metrics).isSome

/-- The route of a block, given the ratio that the codec chosen for it achieves. -/
def route (monitor : Monitor) (metrics : Metrics) (probeRatio : Float) (index : Nat) : Route :=
  if metrics.isHighEntropy then .quarantine .entropyGate
  else
    match monitor.phase with
    | .normal =>
        match monitor.anomaly? probeRatio metrics with
        | some reason => .quarantine reason
        | none => .core
    | .quarantined _ streak _ =>
        if !monitor.isProbe index then .quarantine .quarantineActive
        else if monitor.recovers probeRatio then
          if recoveryProbes ≤ streak + 1 then .recovered else .quarantine .recoveryPending
        else .quarantine .recoveryProbeFail

/-! ## Updates -/

/-- What became of a block. -/
structure Outcome where
  route : Route
  index : Nat
  input : Nat
  output : Nat
  headerSize : Nat
  codecId : UInt8
  probeRatio : Float

/-- What a monitor made of a block. -/
structure Verdict where
  flags : UInt8
  route : Route
  inQuarantine : Bool
  ratio : Float
  trained : Bool
deriving DecidableEq

/-- Whether a quarantined block counts as a good probe. Noise never does. -/
def isGoodProbe (monitor : Monitor) (outcome : Outcome) : Bool :=
  monitor.isProbe outcome.index && outcome.route.reason != some .entropyGate
    && monitor.recovers outcome.probeRatio

/-- The flags of a block, and the monitor with its phase and segments moved on. -/
def step (monitor : Monitor) (outcome : Outcome) (ratio uniqueRatio : Float) : UInt8 × Monitor :=
  match monitor.phase, outcome.route.path with
  | .normal, .core => (0, monitor)
  | .normal, .quarantine =>
      let reasonCode := (outcome.route.reason.map Reason.name).getD "UNKNOWN"
      let segment :=
        Segment.start (monitor.closed.length + 1) outcome.index reasonCode ratio uniqueRatio
      (anomalyStart ||| quarantined,
        { monitor with phase := .quarantined monitor.baseline.ratio 0 (some segment) })
  | .quarantined _ _ segment, .core =>
      let ended := segment.toList.map (·.close outcome.index)
      (anomalyEnd, { monitor with phase := .normal, closed := monitor.closed ++ ended })
  | .quarantined reference streak segment, .quarantine =>
      let isProbe := monitor.isProbe outcome.index
      let isGood := monitor.isGoodProbe outcome
      let streak := if isProbe then (if isGood then streak + 1 else 0) else streak
      let segment := segment.map (·.extend isProbe isGood ratio uniqueRatio)
      (anomalyMid ||| quarantined, { monitor with phase := .quarantined reference streak segment })

/-- The weight of a new block in the moving averages. -/
def smoothing : Float := 0.1

/-- Mix a new figure into a moving average. -/
def smooth (average figure : Float) : Float := smoothing * figure + (1.0 - smoothing) * average

/-- The baseline after a healthy block. The first such block replaces what was assumed. -/
def train (monitor : Monitor) (ratio uniqueRatio : Float) : Monitor :=
  let old := monitor.baseline
  let baseline : Baseline :=
    if monitor.trainedBlocks = 0 then
      { ratio, deviation := ratio * 0.1, uniqueness := uniqueRatio }
    else
      { ratio := smooth old.ratio ratio
        deviation := smooth old.deviation (ratio - old.ratio).abs
        uniqueness := smooth old.uniqueness uniqueRatio }
  { monitor with baseline, trainedBlocks := monitor.trainedBlocks + 1 }

/-- Whether a block trains the baseline: it is healthy, does not end a quarantine and is not too
    diverse. -/
def trains (outcome : Outcome) (flags : UInt8) (uniqueRatio : Float) : Bool :=
  outcome.route.path = .core && !hasFlag flags anomalyEnd && uniqueRatio ≤ 0.8

/-- Take in what became of a block. -/
def update (monitor : Monitor) (metrics : Metrics) (outcome : Outcome) : Verdict × Monitor :=
  let ratio := payloadRatio outcome.input outcome.output
  let unique := metrics.uniqueRatio
  let (flags, moved) := monitor.step outcome ratio unique
  let trained := trains outcome flags unique
  let moved := if trained then moved.train ratio unique else moved
  let moved :=
    { moved with
      totalBlocks := monitor.totalBlocks + 1
      lastIndex := outcome.index
      tally :=
        monitor.tally.record outcome.route.path outcome.input (outcome.output + outcome.headerSize)
      worst :=
        rankWorst monitor.worst
          { block := outcome.index, ratio, entropy := unique, codecId := outcome.codecId } }
  ({ flags, route := outcome.route, inQuarantine := moved.phase.isQuarantined, ratio, trained }, moved)

/-! ## Reports -/

/-- The report of the column so far. An open segment is closed at the last block; the column
    stays quarantined, but what follows is recorded in no segment until the next one opens. -/
def report (monitor : Monitor) : Report × Monitor :=
  let monitor :=
    match monitor.phase with
    | .normal => monitor
    | .quarantined reference streak segment =>
        { monitor with
          phase := .quarantined reference streak none
          closed := monitor.closed ++ segment.toList.map (·.close monitor.lastIndex) }
  ({ schema := reportSchema
     runId := monitor.runId
     formatLabel
     segments := monitor.closed
     worstBlocks := monitor.worst },
    monitor)

end Monitor

end SnapshotArchive

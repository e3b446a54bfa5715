import SnapshotArchive.Health.Monitor
import SnapshotArchive.Session.Writer

/-!
# `Proofs.Watching` — a monitor along its column

A writer drives a monitor in one way only: it asks for the route of the next block and then reports back what
became of the block, with this route, the same index and the same probe ratio. `Monitor.observe` is that one
step. What it can do is said once, in `Monitor.Move`: a column that is healthy stays so or enters quarantine, a
column in quarantine remains there or leaves. All that is proved about sequences of blocks goes by these four
cases.

## Contents
- **One block.** `Sighting`, `Monitor.observe`.
- **Routes in quarantine.** `Monitor.routeOf_of_quarantined`.
- **Moves.** `Monitor.Move` and `Monitor.move`, every block makes one of four moves.
- **Sequences of blocks.** `Monitor.after`, `Monitor.nextIndex_after`.
- **The writer's own step.** `Writer.writeMonitored_eq_observe`.
-/

namespace SnapshotArchive

/-! ## One block -/

/-- A block as its monitor meets it: the figures of the raw values, the ratio of the trial, and the sizes and
    the codec of what was written in the end. -/
structure Sighting where
  metrics : Metrics
  probeRatio : Float
  input : Nat
  output : Nat
  headerSize : Nat
  codecId : UInt8

namespace Monitor

/-- The route of the next block. -/
def routeOf (monitor : Monitor) (block : Sighting) : Route :=
  monitor.route block.metrics block.probeRatio monitor.nextIndex

/-- What is reported back about the next block once it has taken its route. -/
def outcomeOf (monitor : Monitor) (block : Sighting) : Outcome where
  route := monitor.routeOf block
  index := monitor.nextIndex
  input := block.input
  output := block.output
  headerSize := block.headerSize
  codecId := block.codecId
  probeRatio := block.probeRatio

/-- Route the next block and take it in. -/
def observe (monitor : Monitor) (block : Sighting) : Verdict × Monitor :=
  monitor.update block.metrics (monitor.outcomeOf block)

variable (monitor : Monitor) (block : Sighting)

/-- The step of the monitor, without the bookkeeping around it. -/
def stepOf : UInt8 × Monitor :=
  monitor.step (monitor.outcomeOf block) (payloadRatio block.input block.output) block.metrics.uniqueRatio

theorem flags_observe : (monitor.observe block).1.flags = (monitor.stepOf block).1 := rfl

@[simp] theorem totalBlocks_observe : (monitor.observe block).2.totalBlocks = monitor.totalBlocks + 1 := rfl

@[simp] theorem phase_train (ratio uniqueRatio : Float) :
    (monitor.train ratio uniqueRatio).phase = monitor.phase := rfl

@[simp] theorem probeInterval_train (ratio uniqueRatio : Float) :
    (monitor.train ratio uniqueRatio).probeInterval = monitor.probeInterval := rfl

/-- Taking in a block is the step, then training if the block trains, then bookkeeping. -/
theorem observe_snd :
    ∃ moved, (if trains (monitor.outcomeOf block) (monitor.stepOf block).1 block.metrics.uniqueRatio = true
        then (monitor.stepOf block).2.train (payloadRatio block.input block.output) block.metrics.uniqueRatio
        else (monitor.stepOf block).2) = moved ∧
      (monitor.observe block).2.phase = moved.phase ∧
      (monitor.observe block).2.baseline = moved.baseline ∧
      (monitor.observe block).2.probeInterval = moved.probeInterval :=
  ⟨_, rfl, rfl, rfl, rfl⟩

theorem phase_observe : (monitor.observe block).2.phase = (monitor.stepOf block).2.phase := by
  obtain ⟨moved, hmoved, hphase, -, -⟩ := monitor.observe_snd block
  rw [hphase, ← hmoved]
  by_cases htrains : trains (monitor.outcomeOf block) (monitor.stepOf block).1 block.metrics.uniqueRatio = true
  · rw [if_pos htrains]
    rfl
  · rw [if_neg htrains]

theorem probeInterval_stepOf : (monitor.stepOf block).2.probeInterval = monitor.probeInterval := by
  unfold stepOf step
  cases monitor.phase <;> cases (monitor.outcomeOf block).route.path <;> rfl

@[simp] theorem probeInterval_observe :
    (monitor.observe block).2.probeInterval = monitor.probeInterval := by
  obtain ⟨moved, hmoved, -, -, hinterval⟩ := monitor.observe_snd block
  rw [hinterval, ← hmoved, ← monitor.probeInterval_stepOf block]
  by_cases htrains : trains (monitor.outcomeOf block) (monitor.stepOf block).1 block.metrics.uniqueRatio = true
  · rw [if_pos htrains]
    rfl
  · rw [if_neg htrains]

/-- A block that does not train leaves the baseline as the step does. -/
theorem baseline_observe
    (h : trains (monitor.outcomeOf block) (monitor.stepOf block).1 block.metrics.uniqueRatio = false) :
    (monitor.observe block).2.baseline = (monitor.stepOf block).2.baseline := by
  obtain ⟨moved, hmoved, -, hbaseline, -⟩ := monitor.observe_snd block
  rw [hbaseline, ← hmoved, h, if_neg nofun]

/-! ## Routes in quarantine -/

/-- Whether a probe that finds this block succeeds: it is no noise and comes close enough to the reference. -/
def succeeds : Bool := !block.metrics.isHighEntropy && monitor.recovers block.probeRatio

variable {monitor block}

theorem routeOf_of_isHighEntropy (h : block.metrics.isHighEntropy = true) :
    monitor.routeOf block = .quarantine .entropyGate := by
  unfold routeOf route
  rw [if_pos h]

theorem reason_anomaly? {ratio : Float} {metrics : Metrics} {reason : Reason}
    (h : monitor.anomaly? ratio metrics = some reason) : reason = .ratioDrop ∨ reason = .entropyBurst := by
  unfold anomaly? at h
  simp only at h
  split at h
  · exact .inl (Option.some.inj h).symm
  · split at h
    · exact .inr (Option.some.inj h).symm
    · exact nomatch h

/-- **The route of a block in quarantine**, by the tests in their order. -/
theorem routeOf_of_quarantined {reference : Float} {streak : Nat} {segment : Option Segment}
    (h : monitor.phase = .quarantined reference streak segment) :
    monitor.routeOf block =
      if block.metrics.isHighEntropy then .quarantine .entropyGate
      else if !monitor.isProbe monitor.nextIndex then .quarantine .quarantineActive
      else if monitor.recovers block.probeRatio then
        if recoveryProbes ≤ streak + 1 then .recovered else .quarantine .recoveryPending
      else .quarantine .recoveryProbeFail := by
  unfold routeOf route
  rw [h]

/-- The reasons that a healthy column gives. -/
theorem reason_of_normal (h : monitor.phase = .normal) (hnoise : block.metrics.isHighEntropy = false) :
    (monitor.routeOf block).reason = none ∨ (monitor.routeOf block).reason = some .ratioDrop ∨
      (monitor.routeOf block).reason = some .entropyBurst := by
  unfold routeOf route
  rw [hnoise, if_neg nofun, h]
  cases hanomaly : monitor.anomaly? block.probeRatio block.metrics with
  | none => exact .inl rfl
  | some reason =>
      rcases reason_anomaly? hanomaly with rfl | rfl
      · exact .inr (.inl rfl)
      · exact .inr (.inr rfl)

/-- The reasons that a column in quarantine gives. -/
theorem reason_of_quarantined {reference : Float} {streak : Nat} {segment : Option Segment}
    (h : monitor.phase = .quarantined reference streak segment) :
    (monitor.routeOf block).reason = some (
      if block.metrics.isHighEntropy then .entropyGate
      else if !monitor.isProbe monitor.nextIndex then .quarantineActive
      else if monitor.recovers block.probeRatio then
        if recoveryProbes ≤ streak + 1 then .recoveryMatch else .recoveryPending
      else .recoveryProbeFail) := by
  rw [routeOf_of_quarantined h]
  split
  · rfl
  · split
    · rfl
    · split
      · split
        · rfl
        · rfl
      · rfl

/-- Only noise is quarantined as noise. -/
theorem reason_routeOf_eq_entropyGate :
    (monitor.routeOf block).reason = some .entropyGate ↔ block.metrics.isHighEntropy = true := by
  cases hnoise : block.metrics.isHighEntropy with
  | true =>
      rw [routeOf_of_isHighEntropy hnoise]
      exact ⟨fun _ => rfl, fun _ => rfl⟩
  | false =>
      refine ⟨fun hreason => ?_, nofun⟩
      cases hphase : monitor.phase with
      | normal =>
          rcases reason_of_normal hphase hnoise with h | h | h <;> rw [h] at hreason <;> cases hreason
      | quarantined reference streak segment =>
          rw [reason_of_quarantined hphase, hnoise, if_neg nofun] at hreason
          -- none of the other answers names the gate
          split at hreason
          · cases hreason
          · split at hreason
            · split at hreason <;> cases hreason
            · cases hreason

/-- What counts as a good probe is a probe that succeeds. -/
theorem isGoodProbe_outcomeOf :
    monitor.isGoodProbe (monitor.outcomeOf block)
      = (monitor.isProbe monitor.nextIndex && monitor.succeeds block) := by
  have hgate : ((monitor.routeOf block).reason != some .entropyGate) = !block.metrics.isHighEntropy := by
    rw [Bool.eq_iff_iff, bne_iff_ne, Ne, reason_routeOf_eq_entropyGate, Bool.not_eq_true', Bool.not_eq_true]
  show (monitor.isProbe monitor.nextIndex && (monitor.routeOf block).reason != some .entropyGate
    && monitor.recovers block.probeRatio) = _
  rw [hgate, Bool.and_assoc]
  rfl

/-! ## Moves -/

variable (monitor block) in
/-- The streak after a block in quarantine: a probe that succeeds adds to it, any other probe ends it. -/
def streakAfter (streak : Nat) : Nat :=
  if monitor.isProbe monitor.nextIndex then (if monitor.succeeds block then streak + 1 else 0) else streak

variable (monitor block) in
/-- Whether a block is the last probe that a quarantine waits for. -/
def completes (streak : Nat) : Bool :=
  monitor.isProbe monitor.nextIndex && monitor.succeeds block && decide (recoveryProbes ≤ streak + 1)

theorem path_routeOf_of_quarantined (block : Sighting) {reference : Float} {streak : Nat}
    {segment : Option Segment} (h : monitor.phase = .quarantined reference streak segment) :
    (monitor.routeOf block).path = if monitor.completes block streak then .core else .quarantine := by
  rw [routeOf_of_quarantined h]
  unfold completes succeeds
  cases block.metrics.isHighEntropy with
  | true => cases monitor.isProbe monitor.nextIndex <;> rfl
  | false =>
      cases monitor.isProbe monitor.nextIndex with
      | false => rfl
      | true =>
          cases monitor.recovers block.probeRatio with
          | false => rfl
          | true =>
              by_cases hstreak : recoveryProbes ≤ streak + 1 <;>
                simp [hstreak, Route.recovered, Route.quarantine]

variable (monitor block) in
/-- What a block can do to a monitor. -/
inductive Move : Prop where
  /-- A healthy column stays healthy. This alone may move the baseline. -/
  | passes
      (before : monitor.phase = .normal)
      (path : (monitor.routeOf block).path = .core)
      (flags : (monitor.observe block).1.flags = 0)
      (after : (monitor.observe block).2.phase = .normal)
  /-- A healthy column enters quarantine, with the baseline as its reference. -/
  | enters (segment : Segment)
      (before : monitor.phase = .normal)
      (path : (monitor.routeOf block).path = .quarantine)
      (flags : (monitor.observe block).1.flags = anomalyStart ||| quarantined)
      (after : (monitor.observe block).2.phase = .quarantined monitor.baseline.ratio 0 (some segment))
      (baseline : (monitor.observe block).2.baseline = monitor.baseline)
  /-- A column remains in quarantine, and its probes are counted. -/
  | stays (reference : Float) (streak : Nat) (segment next : Option Segment)
      (before : monitor.phase = .quarantined reference streak segment)
      (path : (monitor.routeOf block).path = .quarantine)
      (completes : monitor.completes block streak = false)
      (flags : (monitor.observe block).1.flags = anomalyMid ||| quarantined)
      (after : (monitor.observe block).2.phase
        = .quarantined reference (monitor.streakAfter block streak) next)
      (baseline : (monitor.observe block).2.baseline = monitor.baseline)
  /-- A column leaves quarantine with the last probe it waited for. -/
  | leaves (reference : Float) (streak : Nat) (segment : Option Segment)
      (before : monitor.phase = .quarantined reference streak segment)
      (path : (monitor.routeOf block).path = .core)
      (completes : monitor.completes block streak = true)
      (flags : (monitor.observe block).1.flags = anomalyEnd)
      (after : (monitor.observe block).2.phase = .normal)
      (baseline : (monitor.observe block).2.baseline = monitor.baseline)

/-- A quarantined block does not train. -/
theorem trains_of_path (hpath : (monitor.routeOf block).path = .quarantine) (flags : UInt8) (unique : Float) :
    trains (monitor.outcomeOf block) flags unique = false := by
  show (decide ((monitor.routeOf block).path = .core) && _ && _) = false
  rw [hpath]
  rfl

/-- The block that ends a quarantine does not train. -/
theorem trains_anomalyEnd (outcome : Outcome) (unique : Float) : trains outcome anomalyEnd unique = false := by
  show (_ && !hasFlag anomalyEnd anomalyEnd && _) = false
  rw [show hasFlag anomalyEnd anomalyEnd = true by decide, Bool.not_true, Bool.and_false, Bool.false_and]

/-! The step for each phase and path. -/

section Step

variable {reference : Float} {streak : Nat} {segment : Option Segment}

theorem stepOf_normal_core (hphase : monitor.phase = .normal)
    (hpath : (monitor.routeOf block).path = .core) : monitor.stepOf block = (0, monitor) := by
  have hpath : (monitor.outcomeOf block).route.path = .core := hpath
  unfold stepOf step
  rw [hphase, hpath]

theorem stepOf_normal_quarantine (hphase : monitor.phase = .normal)
    (hpath : (monitor.routeOf block).path = .quarantine) :
    ∃ segment, monitor.stepOf block = (anomalyStart ||| quarantined,
      { monitor with phase := .quarantined monitor.baseline.ratio 0 (some segment) }) := by
  have hpath : (monitor.outcomeOf block).route.path = .quarantine := hpath
  unfold stepOf step
  rw [hphase, hpath]
  exact ⟨_, rfl⟩

theorem stepOf_quarantined_core (hphase : monitor.phase = .quarantined reference streak segment)
    (hpath : (monitor.routeOf block).path = .core) :
    ∃ closed, monitor.stepOf block = (anomalyEnd, { monitor with phase := .normal, closed }) := by
  have hpath : (monitor.outcomeOf block).route.path = .core := hpath
  unfold stepOf step
  rw [hphase, hpath]
  exact ⟨_, rfl⟩

theorem stepOf_quarantined_quarantine (hphase : monitor.phase = .quarantined reference streak segment)
    (hpath : (monitor.routeOf block).path = .quarantine) :
    ∃ next, monitor.stepOf block = (anomalyMid ||| quarantined,
      { monitor with phase := .quarantined reference (monitor.streakAfter block streak) next }) := by
  have hpath : (monitor.outcomeOf block).route.path = .quarantine := hpath
  -- the streak asks whether a probe is good only where there is one
  have hstreak : (if monitor.isProbe monitor.nextIndex then
      (if monitor.isProbe monitor.nextIndex && monitor.succeeds block then streak + 1 else 0) else streak)
        = monitor.streakAfter block streak := by
    unfold streakAfter
    cases monitor.isProbe monitor.nextIndex <;> rfl
  unfold stepOf step
  rw [hphase, hpath, isGoodProbe_outcomeOf, ← hstreak]
  exact ⟨_, rfl⟩

end Step

variable (monitor block) in
/-- **Every block makes one of the four moves.** -/
theorem move : monitor.Move block := by
  cases hphase : monitor.phase with
  | normal =>
      cases hpath : (monitor.routeOf block).path with
      | core =>
          have hstep := stepOf_normal_core hphase hpath
          refine .passes hphase hpath ?_ ?_
          · rw [flags_observe, hstep]
          · rw [phase_observe, hstep, hphase]
      | quarantine =>
          obtain ⟨segment, hstep⟩ := stepOf_normal_quarantine hphase hpath
          have hbaseline := monitor.baseline_observe block (trains_of_path hpath _ _)
          rw [hstep] at hbaseline
          refine .enters segment hphase hpath ?_ ?_ hbaseline
          · rw [flags_observe, hstep]
          · rw [phase_observe, hstep]
  | quarantined reference streak segment =>
      have hpath := path_routeOf_of_quarantined block hphase
      cases hcompletes : monitor.completes block streak with
      | true =>
          rw [hcompletes, if_pos rfl] at hpath
          obtain ⟨closed, hstep⟩ := stepOf_quarantined_core hphase hpath
          have htrains := trains_anomalyEnd (monitor.outcomeOf block) block.metrics.uniqueRatio
          have hbaseline := monitor.baseline_observe block (by rw [hstep]; exact htrains)
          rw [hstep] at hbaseline
          refine .leaves reference streak segment hphase hpath hcompletes ?_ ?_ hbaseline
          · rw [flags_observe, hstep]
          · rw [phase_observe, hstep]
      | false =>
          rw [hcompletes, if_neg nofun] at hpath
          obtain ⟨next, hstep⟩ := stepOf_quarantined_quarantine hphase hpath
          have hbaseline := monitor.baseline_observe block (trains_of_path hpath _ _)
          rw [hstep] at hbaseline
          refine .stays reference streak segment next hphase hpath hcompletes ?_ ?_ hbaseline
          · rw [flags_observe, hstep]
          · rw [phase_observe, hstep]

/-! ## Sequences of blocks -/

/-- The monitor after the first `count` blocks of a column. Blocks are counted from 1. -/
def after (start : Monitor) (blocks : Nat → Sighting) : Nat → Monitor
  | 0 => start
  | count + 1 => ((after start blocks count).observe (blocks (count + 1))).2

variable (start : Monitor) (blocks : Nat → Sighting)

theorem totalBlocks_after (count : Nat) :
    (start.after blocks count).totalBlocks = start.totalBlocks + count := by
  induction count with
  | zero => rfl
  | succ count ih => rw [after, totalBlocks_observe, ih, Nat.add_assoc]

/-- A new monitor numbers the blocks as they come. -/
theorem nextIndex_after (runId : String) (interval count : Nat) :
    ((new runId interval).after blocks count).nextIndex = count + 1 := by
  unfold nextIndex
  rw [totalBlocks_after]
  exact congrArg (· + 1) (Nat.zero_add count)

theorem probeInterval_after (count : Nat) :
    (start.after blocks count).probeInterval = start.probeInterval := by
  induction count with
  | zero => rfl
  | succ count ih => rw [after, probeInterval_observe, ih]

end Monitor

/-! ## The writer's own step -/

namespace Writer

/-- A chunk as the monitor of its column meets it. -/
def sighting (writer : Writer) (column : Column) (values : List Int64) : Sighting where
  metrics := Metrics.ofValues values
  probeRatio :=
    trialRatio values.length
      (writer.context.encode column
        (writer.context.chooseCodec column values (Metrics.ofValues values)) values).1.length
  input := values.length * rawValueSize
  output := (writer.writeMonitored column values).1.record.payloadSize
  headerSize := BlockHeader.size
  codecId := (writer.writeMonitored column values).1.record.codec.id

/-- **A monitored chunk is one step of its monitor**, and no other monitor moves. -/
theorem writeMonitored_eq_observe (writer : Writer) (column : Column) (values : List Int64) :
    let block := writer.sighting column values
    (writer.writeMonitored column values).1.block.header.flags
        = ((writer.monitor column).observe block).1.flags ∧
      (writer.writeMonitored column values).2 =
        { writer with context := (writer.writeMonitored column values).2.context }.setMonitor column
          ((writer.monitor column).observe block).2 := by
  refine ⟨rfl, ?_⟩
  unfold setMonitor
  cases column <;> rfl

end Writer

end SnapshotArchive

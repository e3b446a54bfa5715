import SnapshotArchive.Proofs.FloatOrder
import SnapshotArchive.Proofs.Watching

/-!
# `Proofs.Anomalies` — an anomaly compresses worse than the baseline

A healthy column sends a block into quarantine for two reasons besides noise: the ratio of its trial drops too far
below the baseline, or the block is full of new values and falls short of the baseline as well. The first test
takes a margin away from the baseline, and a rounded difference says nothing by itself. But the figures of a
baseline are made from counts by sums, products and quotients, so none of them has a sign, and then both tests
agree that an anomaly lies below the baseline.

In quarantine the same holds of the reference that the quarantine is to come back to, since it is the baseline:
nothing moves the one away from the other (`Monitor.Anchored`).

## Contents
- **Tests.** `Baseline.dropMargin`, `Baseline.DroppedBy`, `Baseline.BurstBy`; `Monitor.anomaly?_eq`.
- **One block.** `Monitor.moved` and `Monitor.observe_eq`.
- **Invariant.** `Monitor.Anchored`, kept by `Monitor.Anchored.observe` and `Monitor.anchored_after`.
- **Anomalies.** `Monitor.Anchored.lt_of_anomaly?`.
-/

namespace SnapshotArchive

open FloatOrder

/-! ## Tests -/

namespace Baseline

/-- The deviation that a drop is judged by: three of it take away nine tenths of the baseline at most. -/
def dropMargin (baseline : Baseline) : Float :=
  if baseline.ratio * 0.9 < baseline.deviation * 3.0 then baseline.ratio * 0.9 / 3.0 else baseline.deviation

/-- The trial of a block falls short of the baseline by more than three deviations. -/
def DroppedBy (baseline : Baseline) (block : Sighting) : Prop :=
  block.probeRatio < baseline.ratio - 3.0 * baseline.dropMargin

/-- A block is much more diverse than the baseline and falls short of it. -/
def BurstBy (baseline : Baseline) (block : Sighting) : Prop :=
  baseline.uniqueness * 1.5 < block.metrics.uniqueRatio ∧ 0.5 < block.metrics.uniqueRatio ∧
    block.probeRatio < baseline.ratio

instance (baseline : Baseline) (block : Sighting) : Decidable (baseline.DroppedBy block) :=
  inferInstanceAs (Decidable (_ < _))

instance (baseline : Baseline) (block : Sighting) : Decidable (baseline.BurstBy block) :=
  inferInstanceAs (Decidable (_ ∧ _))

/-- Neither figure that the tests take away from has a sign. -/
structure Signless (baseline : Baseline) : Prop where
  ratio : Unsigned baseline.ratio
  deviation : Unsigned baseline.deviation

theorem signless_initial : initial.Signless := ⟨by decide, by decide⟩

variable {baseline : Baseline} {block : Sighting}

theorem Signless.dropMargin (h : baseline.Signless) : Unsigned baseline.dropMargin := by
  unfold Baseline.dropMargin
  split
  · exact (h.ratio.mul (by decide)).div (by decide)
  · exact h.deviation

/-- **A drop is below the baseline.** -/
theorem DroppedBy.lt (hdropped : baseline.DroppedBy block) (h : baseline.Signless) :
    block.probeRatio < baseline.ratio :=
  lt_of_lt_sub h.ratio (Unsigned.mul (by decide) h.dropMargin) hdropped

end Baseline

namespace Monitor

variable {monitor : Monitor} {block : Sighting}

/-- **The tests of a monitor are those of its baseline** as long as that is what it refers to. -/
theorem anomaly?_eq (h : monitor.referenceRatio = monitor.baseline.ratio) (block : Sighting) :
    monitor.anomaly? block.probeRatio block.metrics =
      if monitor.baseline.DroppedBy block then some .ratioDrop
      else if monitor.baseline.BurstBy block then some .entropyBurst
      else none := by
  unfold anomaly? dropDeviation
  rw [h]
  rfl

/-! ## One block -/

variable (monitor block) in
/-- Whether the next block trains the baseline. -/
def trainsOn : Bool := trains (monitor.outcomeOf block) (monitor.stepOf block).1 block.metrics.uniqueRatio

variable (monitor block) in
/-- The monitor after the step and the training, before the bookkeeping. -/
def moved : Monitor :=
  if monitor.trainsOn block then
    (monitor.stepOf block).2.train (payloadRatio block.input block.output) block.metrics.uniqueRatio
  else (monitor.stepOf block).2

/-- **What taking in a block comes to.** -/
theorem observe_eq (monitor : Monitor) (block : Sighting) :
    monitor.observe block =
      ({ flags := (monitor.stepOf block).1
         route := monitor.routeOf block
         inQuarantine := (monitor.moved block).phase.isQuarantined
         ratio := payloadRatio block.input block.output
         trained := monitor.trainsOn block },
       { monitor.moved block with
         totalBlocks := monitor.totalBlocks + 1
         lastIndex := monitor.nextIndex
         tally :=
           monitor.tally.record (monitor.routeOf block).path block.input (block.output + block.headerSize)
         worst :=
           rankWorst monitor.worst
             { block := monitor.nextIndex, ratio := payloadRatio block.input block.output
               entropy := block.metrics.uniqueRatio, codecId := block.codecId } }) := rfl

/-- The step leaves the training alone. -/
theorem training_stepOf (monitor : Monitor) (block : Sighting) :
    (monitor.stepOf block).2.baseline = monitor.baseline ∧
      (monitor.stepOf block).2.trainedBlocks = monitor.trainedBlocks := by
  unfold stepOf step
  cases monitor.phase <;> cases (monitor.outcomeOf block).route.path <;> exact ⟨rfl, rfl⟩

/-! ## Invariant -/

/-- What a monitor refers to is its baseline, and the baseline is made of counts. -/
structure Anchored (monitor : Monitor) : Prop where
  signless : monitor.baseline.Signless
  reference : monitor.referenceRatio = monitor.baseline.ratio

theorem anchored_new (runId : String) (interval : Nat) : (new runId interval).Anchored :=
  ⟨Baseline.signless_initial, rfl⟩

theorem unsigned_smooth {average figure : Float} (haverage : Unsigned average) (hfigure : Unsigned figure) :
    Unsigned (smooth average figure) := by
  have hweight : Unsigned smoothing := by decide
  have hrest : Unsigned (1.0 - smoothing) := by decide
  exact (hweight.mul hfigure).add (hrest.mul haverage)

theorem signless_train (h : monitor.baseline.Signless) {ratio : Float} (hratio : Unsigned ratio)
    (uniqueRatio : Float) : (monitor.train ratio uniqueRatio).baseline.Signless := by
  unfold train
  by_cases hfirst : monitor.trainedBlocks = 0
  · simp only [if_pos hfirst]
    exact ⟨hratio, hratio.mul (by decide)⟩
  · simp only [if_neg hfirst]
    exact ⟨unsigned_smooth h.ratio hratio, unsigned_smooth h.deviation (unsigned_abs _)⟩

theorem signless_moved (h : monitor.baseline.Signless) (block : Sighting) :
    (monitor.moved block).baseline.Signless := by
  rw [← (monitor.training_stepOf block).1] at h
  unfold moved
  split
  · exact signless_train h (unsigned_countRatio _ _) _
  · exact h

/-- **A block does not part the reference from the baseline.** -/
theorem Anchored.observe (h : monitor.Anchored) (block : Sighting) : (monitor.observe block).2.Anchored := by
  refine ⟨signless_moved h.signless block, ?_⟩
  have hreference := h.reference
  unfold referenceRatio at hreference ⊢
  -- a quarantine takes the baseline as its reference when it opens, and while it lasts neither of the two moves
  cases monitor.move block with
  | passes _ _ _ after => rw [after]
  | enters _ _ _ _ after baseline => rw [after, baseline]
  | stays _ _ _ _ before _ _ _ after baseline =>
      rw [before] at hreference
      rw [after, baseline]
      exact hreference
  | leaves _ _ _ _ _ _ _ after => rw [after]

theorem anchored_after {start : Monitor} (h : start.Anchored) (blocks : Nat → Sighting) (count : Nat) :
    (start.after blocks count).Anchored := by
  induction count with
  | zero => exact h
  | succ count ih => exact ih.observe _

/-! ## Anomalies -/

/-- **An anomaly is below the baseline**, for whatever reason it is one. -/
theorem Anchored.lt_of_anomaly? (h : monitor.Anchored) {reason : Reason}
    (hanomaly : monitor.anomaly? block.probeRatio block.metrics = some reason) :
    block.probeRatio < monitor.baseline.ratio := by
  rw [anomaly?_eq h.reference] at hanomaly
  by_cases hdropped : monitor.baseline.DroppedBy block
  · exact hdropped.lt h.signless
  · rw [if_neg hdropped] at hanomaly
    by_cases hburst : monitor.baseline.BurstBy block
    · exact hburst.2.2
    · rw [if_neg hburst] at hanomaly
      cases hanomaly

/-- **The route of a block that is no noise**, in a healthy column. -/
theorem Anchored.routeOf_eq_core (h : monitor.Anchored) (hphase : monitor.phase = .normal)
    (hnoise : block.metrics.isHighEntropy = false) :
    monitor.routeOf block = .core ↔
      ¬monitor.baseline.DroppedBy block ∧ ¬monitor.baseline.BurstBy block := by
  unfold routeOf route
  rw [hnoise, if_neg nofun, hphase]
  simp only
  rw [anomaly?_eq h.reference]
  by_cases hdropped : monitor.baseline.DroppedBy block
  · rw [if_pos hdropped]
    exact ⟨nofun, fun hcalm => absurd hdropped hcalm.1⟩
  · rw [if_neg hdropped]
    by_cases hburst : monitor.baseline.BurstBy block
    · rw [if_pos hburst]
      exact ⟨nofun, fun hcalm => absurd hburst hcalm.2⟩
    · rw [if_neg hburst]
      exact ⟨fun _ => ⟨hdropped, hburst⟩, fun _ => rfl⟩

end Monitor

end SnapshotArchive

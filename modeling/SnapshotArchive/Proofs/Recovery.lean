import SnapshotArchive.Proofs.Forgetting

/-!
# `Proofs.Recovery` — what the end of a quarantine promises about the next block

A probe is good if it falls short of the reference by ten deviations at most, and a drop is more than three
deviations below the baseline. Between the two lies a band of ratios that end a quarantine and open the next one, so
that the end of a quarantine is no promise that a block like its last probe stays on the core path
(`Monitor.flickeringColumn_relapses`).

What is promised is the baseline: the quarantine has not moved it, and neither has the block that ended it. The next
block is held against the very baseline that the last probe came back to, by the tests of a healthy column. So only
what lies below that baseline can go wrong again.

## Contents
- **Openings.** `Monitor.exists_lasts`: every quarantine has been opened by a block.
- **Endings.** `Monitor.Anchored.regained_of_anomalyEnd`.
- **Main result.** `Monitor.routeOf_after_recovery`.
-/

namespace SnapshotArchive

namespace Monitor

/-! ## Openings -/

section Openings

variable {start : Monitor} {blocks : Nat → Sighting}

/-- A quarantine that the next block does not end goes on. -/
theorem Lasts.succ {opening count : Nat} (h : start.Lasts blocks opening (count + 1))
    (hgoes : ¬hasFlag (start.flagsAt blocks (count + 1)) anomalyEnd = true) :
    start.Lasts blocks opening (count + 1 + 1) where
  first := h.first
  opens := h.opens
  goes := by
    intro index hlo hhi
    rcases Nat.lt_or_eq_of_le (Nat.le_of_lt_succ hhi) with hbefore | rfl
    · exact h.goes index hlo hbefore
    · exact hgoes

/-- **Every quarantine has been opened by a block**, and lasts since. -/
theorem exists_lasts (hnew : start.phase = .normal) {count : Nat}
    (h : (start.after blocks count).phase.isQuarantined = true) :
    ∃ opening ≤ count, start.Lasts blocks opening (count + 1) := by
  induction count with
  | zero =>
      rw [after, hnew] at h
      cases h
  | succ count ih =>
      have hphase : ((start.after blocks count).observe (blocks (count + 1))).2.phase.isQuarantined = true := h
      cases (start.after blocks count).move (blocks (count + 1)) with
      | passes _ _ _ after => rw [after] at hphase; cases hphase
      | leaves _ _ _ _ _ _ _ after => rw [after] at hphase; cases hphase
      | enters _ _ _ flags =>
          -- this block is the opening one
          refine ⟨count + 1, Nat.le_refl _, Nat.succ_pos count, ?_, fun index hlo hhi => by omega⟩
          unfold flagsAt
          rw [Nat.add_sub_cancel, flags]
          decide
      | stays _ _ _ _ before _ _ flags =>
          obtain ⟨opening, hopening, hlasts⟩ := ih (by rw [before]; rfl)
          refine ⟨opening, Nat.le_succ_of_le hopening, hlasts.succ ?_⟩
          unfold flagsAt
          rw [Nat.add_sub_cancel, flags]
          decide

end Openings

/-! ## Endings -/

section Endings

variable {monitor : Monitor} {block : Sighting}

theorem isQuarantined_of_anomalyEnd (h : hasFlag (monitor.observe block).1.flags anomalyEnd = true) :
    monitor.phase.isQuarantined = true := by
  cases monitor.move block with
  | passes _ _ flags => rw [flags] at h; cases h
  | enters _ _ _ flags => rw [flags] at h; cases h
  | stays _ _ _ _ before => rw [before]; rfl
  | leaves _ _ _ before => rw [before]; rfl

/-- **The block that ends a quarantine has come back to the baseline**, and leaves it where it is. -/
theorem Anchored.regained_of_anomalyEnd (hanchored : monitor.Anchored)
    (h : hasFlag (monitor.observe block).1.flags anomalyEnd = true) :
    (monitor.observe block).2.baseline = monitor.baseline ∧ monitor.baseline.RegainedBy block := by
  cases monitor.move block with
  | passes _ _ flags => rw [flags] at h; cases h
  | enters _ _ _ flags => rw [flags] at h; cases h
  | stays _ _ _ _ _ _ _ flags => rw [flags] at h; cases h
  | leaves _ _ _ _ _ hcompletes _ _ baseline =>
      refine ⟨baseline, ?_⟩
      unfold completes succeeds recovers at hcompletes
      rw [Bool.and_eq_true, Bool.and_eq_true, Bool.and_eq_true, Bool.not_eq_true', decide_eq_true_iff,
        hanchored.reference] at hcompletes
      exact hcompletes.1.2

end Endings

/-! ## Main result -/

/-- **What the end of a quarantine promises.** A new monitor takes in any blocks, numbered from 1, and block `ending`
    ends a quarantine. Some block has opened it, and the baseline is still that from just before this opening. The
    last probe has come back to it. The next block, if it has the same figures and the same trial, takes the core
    path exactly if it is neither a drop below this baseline nor a burst of new values. In particular it does so
    unless its trial falls short of the baseline. -/
theorem routeOf_after_recovery (runId : String) (interval : Nat) (blocks : Nat → Sighting) (ending : Nat)
    (hfirst : 1 ≤ ending)
    (hends : hasFlag ((Monitor.new runId interval).flagsAt blocks ending) anomalyEnd = true)
    (hmetrics : (blocks (ending + 1)).metrics = (blocks ending).metrics)
    (hratio : (blocks (ending + 1)).probeRatio = (blocks ending).probeRatio) :
    let start := Monitor.new runId interval
    let baseline := (start.after blocks ending).baseline
    let next := (start.after blocks ending).routeOf (blocks (ending + 1))
    (∃ opening < ending, start.Lasts blocks opening ending ∧
        baseline = (start.after blocks (opening - 1)).baseline) ∧
      baseline.RegainedBy (blocks ending) ∧
      (next = .core ↔ ¬baseline.DroppedBy (blocks ending) ∧ ¬baseline.BurstBy (blocks ending)) ∧
      (¬(blocks ending).probeRatio < baseline.ratio → next = .core) := by
  intro start baseline next
  obtain ⟨last, rfl⟩ := Nat.exists_eq_add_of_le' hfirst
  have hbefore : (start.after blocks last).Anchored := anchored_after (anchored_new runId interval) blocks last
  have hafter : (start.after blocks (last + 1)).Anchored := hbefore.observe _
  have hflags : hasFlag ((start.after blocks last).observe (blocks (last + 1))).1.flags anomalyEnd = true := hends
  obtain ⟨hkept, hregained⟩ := hbefore.regained_of_anomalyEnd hflags
  have hkept : baseline = (start.after blocks last).baseline := hkept
  rw [← hkept] at hregained
  have hphase : (start.after blocks (last + 1)).phase = .normal := phase_of_anomalyEnd hflags
  -- the next block is no noise, since the last probe is none
  have hnoise : (blocks (last + 1 + 1)).metrics.isHighEntropy = false := by
    rw [hmetrics]
    exact hregained.1
  have hnext : next = .core ↔
      ¬baseline.DroppedBy (blocks (last + 1)) ∧ ¬baseline.BurstBy (blocks (last + 1)) := by
    have hroute := hafter.routeOf_eq_core hphase hnoise
    unfold Baseline.DroppedBy Baseline.BurstBy at hroute ⊢
    rwa [hmetrics, hratio] at hroute
  refine ⟨?_, hregained, hnext, ?_⟩
  · obtain ⟨opening, hopening, hlasts⟩ := exists_lasts rfl (isQuarantined_of_anomalyEnd hflags)
    exact ⟨opening, Nat.lt_succ_of_le hopening, hlasts,
      (hlasts.training (Nat.le_succ_of_le hopening) (Nat.le_refl _)).1⟩
  · intro hlevel
    refine hnext.mpr ⟨fun hdropped => hlevel (hdropped.lt hafter.signless), fun hburst => hlevel hburst.2.2⟩

/-- Figures of a calm block. -/
def calmBlock (output : Nat) (probeRatio : Float) : Sighting where
  metrics := { uniqueRatio := 0.1, uniqueDeltaRatio := 0.01, zeroTurnRatio := 1.0, stepP90 := 1 }
  probeRatio := probeRatio
  input := 8000
  output := output
  headerSize := 11
  codecId := 1

/-- Figures of a block of noise. -/
def noisyBlock : Sighting where
  metrics := { uniqueRatio := 0.99, uniqueDeltaRatio := 0.95, zeroTurnRatio := 0.0, stepP90 := 5000 }
  probeRatio := 3.0
  input := 8000
  output := 2667
  headerSize := 11
  codecId := 1

/-- A column that compresses to a fortieth, meets noise, and compresses as well as before afterwards. -/
def steadyColumn (index : Nat) : Sighting := if index = 2 then noisyBlock else calmBlock 200 40.0

theorem steadyColumn_recovers :
    let start := Monitor.new "run" 1
    hasFlag (start.flagsAt steadyColumn 5) anomalyEnd = true ∧
      (start.after steadyColumn 5).routeOf (steadyColumn 6) = .core := by
  have hends : hasFlag ((Monitor.new "run" 1).flagsAt steadyColumn 5) anomalyEnd = true := by decide +kernel
  obtain ⟨-, -, -, hcore⟩ := routeOf_after_recovery "run" 1 steadyColumn 5 (by decide) hends rfl rfl
  exact ⟨hends, hcore (by decide +kernel)⟩

/-- A column that compresses to a fortieth, meets noise, and compresses only half as well afterwards. -/
def flickeringColumn (index : Nat) : Sighting :=
  if index = 1 then calmBlock 200 40.0 else if index = 2 then noisyBlock else calmBlock 400 20.0

/-- **A block good enough to end a quarantine can open the next one.** Block 5 comes back to the baseline by ten
    deviations, and block 6, which is the same, drops below it by three. -/
theorem flickeringColumn_relapses :
    let start := Monitor.new "run" 1
    hasFlag (start.flagsAt flickeringColumn 5) anomalyEnd = true ∧
      (start.after flickeringColumn 4).routeOf (flickeringColumn 5) = .recovered ∧
      flickeringColumn 6 = flickeringColumn 5 ∧
      (start.after flickeringColumn 5).routeOf (flickeringColumn 6) = .quarantine .ratioDrop ∧
      hasFlag (start.flagsAt flickeringColumn 6) anomalyStart = true := by
  exact ⟨by decide +kernel, by decide +kernel, rfl, by decide +kernel, by decide +kernel⟩

end Monitor

end SnapshotArchive

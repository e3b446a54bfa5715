import SnapshotArchive.Proofs.Watching

/-!
# `Proofs.Hysteresis` — when exactly a quarantine ends

A quarantine that block `s` opens ends at the first block `e` that is a probe, together with the two probes
before it lies behind `s`, and succeeds with both of them. Success is measured against the baseline from just
before `s`: nothing moves it while the quarantine lasts.

The streak of the monitor is a count, the question is about blocks. What links them is `Monitor.Counts`: the streak
has reached `j` exactly when the last `j` probes lie behind `s` and have all succeeded. The streak never passes
two, because the third success is the one that ends the quarantine, so this is all it has to say.

## Contents
- **Probes.** `lastProbe`, the probes counted back from a block.
- **The count.** `Monitor.Counts`; `Monitor.Counts.start`, `Monitor.Counts.observe`, `Monitor.counts_after`.
- **Reasons.** `Monitor.reason_eq_recoveryPending` and the like: a decision names what the update then counts.
- **Main result.** `Monitor.quarantine_ends_iff`.
-/

namespace SnapshotArchive

/-! ## Probes -/

/-- The probes at or before block `index`, counted backwards from 0. Past the first one it is 0, which is no
    block. -/
def lastProbe (interval index back : Nat) : Nat := interval * (index / interval - back)

theorem lastProbe_le (interval index back : Nat) : lastProbe interval index back ≤ index :=
  Nat.le_trans (Nat.mul_le_mul_left _ (Nat.sub_le _ _)) (Nat.mul_div_le index interval)

section Probes

variable {interval index : Nat}

theorem lastProbe_of_not_dvd (h : ¬interval ∣ index + 1) (back : Nat) :
    lastProbe interval (index + 1) back = lastProbe interval index back := by
  unfold lastProbe
  rw [Nat.succ_div_of_not_dvd h]

/-- A probe becomes the latest one, and all others are one further back. -/
theorem lastProbe_succ_of_dvd (h : interval ∣ index + 1) (back : Nat) :
    lastProbe interval (index + 1) (back + 1) = lastProbe interval index back := by
  unfold lastProbe
  rw [Nat.succ_div_of_dvd h, Nat.add_sub_add_right]

/-- Seen from a probe, the probes before it are whole intervals back. -/
theorem lastProbe_of_dvd (h : interval ∣ index) (back : Nat) :
    lastProbe interval index back = index - back * interval := by
  unfold lastProbe
  rw [Nat.mul_sub, Nat.mul_div_cancel' h, Nat.mul_comm interval back]

end Probes

/-! ## The count -/

/-- Whether a block comes back to a baseline: it is no noise, and its trial falls short of the baseline by no
    more than ten deviations, of which none counts as less than a tenth. -/
def Baseline.RegainedBy (baseline : Baseline) (block : Sighting) : Prop :=
  block.metrics.isHighEntropy = false ∧
    baseline.ratio - 10.0 * floatMax baseline.deviation 0.1 ≤ block.probeRatio

/-- How many probes in a row have succeeded; none where there is no quarantine. -/
def Phase.streak : Phase → Nat
  | .normal => 0
  | .quarantined _ streak _ => streak

namespace Monitor

/-- The probe `back` before block `index` lies behind the block that opened the quarantine and has succeeded. -/
def HasRegained (blocks : Nat → Sighting) (interval opening : Nat) (baseline : Baseline) (index back : Nat) :
    Prop :=
  opening < lastProbe interval index back ∧ baseline.RegainedBy (blocks (lastProbe interval index back))

/-- The monitor is in the quarantine that block `opening` opened at a baseline, and after block `index` its
    streak counts the probes since. -/
structure Counts (blocks : Nat → Sighting) (opening : Nat) (baseline : Baseline) (index streak : Nat)
    (monitor : Monitor) : Prop where
  numbered : monitor.nextIndex = index + 1
  phase : ∃ segment, monitor.phase = .quarantined baseline.ratio streak segment
  frozen : monitor.baseline = baseline
  least : streak ≤ 2
  counted : ∀ reached ≤ 2, reached ≤ streak ↔
    ∀ back < reached, HasRegained blocks monitor.probeInterval opening baseline index back

section Flags

variable {monitor : Monitor} {block : Sighting}

/-- Only a move into quarantine is flagged as a start. -/
theorem enters_of_anomalyStart (h : hasFlag (monitor.observe block).1.flags anomalyStart = true) :
    ∃ segment, (monitor.observe block).2.phase = .quarantined monitor.baseline.ratio 0 (some segment) ∧
      (monitor.observe block).2.baseline = monitor.baseline := by
  cases monitor.move block with
  | passes _ _ flags => rw [flags] at h; cases h
  | enters segment _ _ _ after baseline => exact ⟨segment, after, baseline⟩
  | stays _ _ _ _ _ _ _ flags => rw [flags] at h; cases h
  | leaves _ _ _ _ _ _ flags => rw [flags] at h; cases h

/-- A probe that succeeds without ending the quarantine finds room in the streak. -/
theorem streak_le_of_completes {streak : Nat} (hcompletes : monitor.completes block streak = false)
    (hprobe : monitor.isProbe monitor.nextIndex = true) (hsucceeds : monitor.succeeds block = true) :
    streak ≤ 1 := by
  unfold completes at hcompletes
  rw [hprobe, hsucceeds, Bool.true_and, Bool.true_and, decide_eq_false_iff_not] at hcompletes
  have hroom : streak + 1 < 3 := Nat.lt_of_not_le hcompletes
  omega

/-- **The streak never passes two**: a third success ends the quarantine. -/
theorem streakAfter_le {streak : Nat} (h : streak ≤ 2) (hcompletes : monitor.completes block streak = false) :
    monitor.streakAfter block streak ≤ 2 := by
  unfold streakAfter
  by_cases hprobe : monitor.isProbe monitor.nextIndex = true
  · by_cases hsucceeds : monitor.succeeds block = true
    · rw [if_pos hprobe, if_pos hsucceeds]
      exact Nat.succ_le_succ (streak_le_of_completes hcompletes hprobe hsucceeds)
    · rw [if_pos hprobe, if_neg hsucceeds]
      exact Nat.zero_le 2
  · rw [if_neg hprobe]
    exact h

theorem streak_observe_le (h : monitor.phase.streak ≤ 2) : (monitor.observe block).2.phase.streak ≤ 2 := by
  cases monitor.move block with
  | passes _ _ _ after => rw [after]; exact Nat.zero_le 2
  | enters _ _ _ _ after => rw [after]; exact Nat.zero_le 2
  | leaves _ _ _ _ _ _ _ after => rw [after]; exact Nat.zero_le 2
  | stays _ _ _ _ before _ hcompletes _ after =>
      rw [before] at h
      rw [after]
      exact streakAfter_le h hcompletes

/-- Only a probe ends a quarantine. -/
theorem isProbe_of_anomalyEnd (h : hasFlag (monitor.observe block).1.flags anomalyEnd = true) :
    monitor.isProbe monitor.nextIndex = true := by
  cases monitor.move block with
  | passes _ _ flags => rw [flags] at h; cases h
  | enters _ _ _ flags => rw [flags] at h; cases h
  | stays _ _ _ _ _ _ _ flags => rw [flags] at h; cases h
  | leaves _ _ _ _ _ hcompletes =>
      unfold completes at hcompletes
      rw [Bool.and_eq_true, Bool.and_eq_true] at hcompletes
      exact hcompletes.1.1

end Flags

namespace Counts

variable {blocks : Nat → Sighting} {opening index streak : Nat} {baseline : Baseline} {monitor : Monitor}

/-- **A quarantine begins with an empty count.** -/
theorem start (hnumbered : monitor.nextIndex = opening)
    (h : hasFlag (monitor.observe (blocks opening)).1.flags anomalyStart = true) :
    Counts blocks opening monitor.baseline opening 0 (monitor.observe (blocks opening)).2 := by
  obtain ⟨segment, hphase, hbaseline⟩ := enters_of_anomalyStart h
  refine ⟨?_, ⟨some segment, hphase⟩, hbaseline, Nat.zero_le 2, ?_⟩
  · rw [← hnumbered]
    rfl
  · intro reached _
    constructor
    · intro hzero back hback
      omega
    · intro hall
      -- the latest probe cannot lie behind the opening block, which is the latest block
      rcases Nat.eq_zero_or_pos reached with hzero | hsome
      · exact Nat.le_of_eq hzero
      · have hbehind := (hall 0 hsome).1
        have hle := lastProbe_le (monitor.observe (blocks opening)).2.probeInterval opening 0
        omega

theorem succeeds_iff (h : Counts blocks opening baseline index streak monitor) (block : Sighting) :
    monitor.succeeds block = true ↔ baseline.RegainedBy block := by
  obtain ⟨segment, hphase⟩ := h.phase
  have hreference : monitor.referenceRatio = baseline.ratio := by
    unfold referenceRatio
    rw [hphase]
  unfold succeeds recovers
  rw [hreference, h.frozen, Bool.and_eq_true, Bool.not_eq_true', decide_eq_true_iff]
  rfl

theorem isProbe_iff (h : Counts blocks opening baseline index streak monitor) :
    monitor.isProbe monitor.nextIndex = true ↔ monitor.probeInterval ∣ index + 1 := by
  unfold isProbe
  rw [decide_eq_true_iff, h.numbered, Nat.dvd_iff_mod_eq_zero]

/-- **When the next block is the last probe that the quarantine waits for.** -/
theorem completes_iff (h : Counts blocks opening baseline index streak monitor) :
    monitor.completes (blocks (index + 1)) streak = true ↔
      monitor.probeInterval ∣ index + 1 ∧ opening + 2 * monitor.probeInterval < index + 1 ∧
        baseline.RegainedBy (blocks (index + 1 - 2 * monitor.probeInterval)) ∧
        baseline.RegainedBy (blocks (index + 1 - monitor.probeInterval)) ∧
        baseline.RegainedBy (blocks (index + 1)) := by
  have hreached : recoveryProbes ≤ streak + 1 ↔ 2 ≤ streak := Nat.succ_le_succ_iff
  unfold completes
  rw [Bool.and_eq_true, Bool.and_eq_true, decide_eq_true_iff, hreached, h.isProbe_iff, h.succeeds_iff,
    h.counted 2 (Nat.le_refl 2)]
  constructor
  · rintro ⟨⟨hprobe, hlast⟩, hall⟩
    have hfirst := hall 1 (by omega)
    have hsecond := hall 0 (by omega)
    unfold HasRegained at hfirst hsecond
    rw [← lastProbe_succ_of_dvd hprobe, lastProbe_of_dvd hprobe] at hfirst hsecond
    simp only [Nat.zero_add, Nat.one_mul] at hfirst hsecond
    refine ⟨hprobe, ?_, hfirst.2, hsecond.2, hlast⟩
    have := hfirst.1
    omega
  · rintro ⟨hprobe, hbehind, hfirst, hsecond, hlast⟩
    refine ⟨⟨hprobe, hlast⟩, ?_⟩
    intro back hback
    unfold HasRegained
    rw [← lastProbe_succ_of_dvd hprobe, lastProbe_of_dvd hprobe]
    -- the two probes before this one
    match back, hback with
    | 0, _ =>
        simp only [Nat.zero_add, Nat.one_mul]
        exact ⟨by omega, hsecond⟩
    | 1, _ => exact ⟨by omega, hfirst⟩

/-- The block that completes the count, and no other, is flagged as an end. -/
theorem anomalyEnd_iff (h : Counts blocks opening baseline index streak monitor) (block : Sighting) :
    hasFlag (monitor.observe block).1.flags anomalyEnd = true ↔ monitor.completes block streak = true := by
  obtain ⟨segment, hphase⟩ := h.phase
  cases monitor.move block with
  | passes before => rw [hphase] at before; cases before
  | enters _ before => rw [hphase] at before; cases before
  | stays _ _ _ _ before _ hcompletes flags =>
      rw [hphase] at before
      cases before
      rw [flags, hcompletes]
      decide
  | leaves _ _ _ before _ hcompletes flags =>
      rw [hphase] at before
      cases before
      rw [flags, hcompletes]
      decide

/-- A probe puts itself before the probes counted so far. -/
theorem forall_hasRegained_succ (hprobe : monitor.probeInterval ∣ index + 1) (hbehind : opening < index + 1)
    (reached : Nat) :
    (∀ back < reached + 1, HasRegained blocks monitor.probeInterval opening baseline (index + 1) back) ↔
      baseline.RegainedBy (blocks (index + 1)) ∧
        ∀ back < reached, HasRegained blocks monitor.probeInterval opening baseline index back := by
  have hlatest : lastProbe monitor.probeInterval (index + 1) 0 = index + 1 := by
    rw [lastProbe_of_dvd hprobe, Nat.zero_mul, Nat.sub_zero]
  have hearlier (back : Nat) :
      HasRegained blocks monitor.probeInterval opening baseline (index + 1) (back + 1) ↔
        HasRegained blocks monitor.probeInterval opening baseline index back := by
    unfold HasRegained
    rw [lastProbe_succ_of_dvd hprobe]
  constructor
  · intro hall
    refine ⟨?_, fun back hback => (hearlier back).mp (hall (back + 1) (Nat.succ_lt_succ hback))⟩
    have hthis := (hall 0 (Nat.succ_pos reached)).2
    rwa [hlatest] at hthis
  · rintro ⟨hthis, hall⟩ back hback
    cases back with
    | zero => exact ⟨hlatest.symm ▸ hbehind, hlatest.symm ▸ hthis⟩
    | succ back => exact (hearlier back).mpr (hall back (Nat.lt_of_succ_lt_succ hback))

/-- What the new streak counts. -/
theorem counted_streakAfter (h : Counts blocks opening baseline index streak monitor)
    (hbehind : opening < index + 1) {reached : Nat} (hreached : reached ≤ 2) :
    reached ≤ monitor.streakAfter (blocks (index + 1)) streak ↔
      ∀ back < reached, HasRegained blocks monitor.probeInterval opening baseline (index + 1) back := by
  unfold streakAfter
  by_cases hprobe : monitor.isProbe monitor.nextIndex = true
  · have hdvd := h.isProbe_iff.mp hprobe
    rw [if_pos hprobe]
    cases reached with
    | zero => exact ⟨fun _ _ hback => absurd hback (Nat.not_lt_zero _), fun _ => Nat.zero_le _⟩
    | succ reached =>
        rw [forall_hasRegained_succ hdvd hbehind]
        by_cases hsucceeds : monitor.succeeds (blocks (index + 1)) = true
        · -- a good probe: one more than before
          have hregained := (h.succeeds_iff _).mp hsucceeds
          rw [if_pos hsucceeds, Nat.succ_le_succ_iff, h.counted reached (Nat.le_of_succ_le hreached)]
          exact ⟨fun hall => ⟨hregained, hall⟩, fun hall => hall.2⟩
        · -- a bad probe: none any more
          rw [if_neg hsucceeds]
          exact ⟨nofun, fun hall => absurd ((h.succeeds_iff _).mpr hall.1) hsucceeds⟩
  · -- no probe: the last probes are those that they were
    have hdvd : ¬monitor.probeInterval ∣ index + 1 := fun hdvd => hprobe (h.isProbe_iff.mpr hdvd)
    rw [if_neg hprobe]
    unfold HasRegained
    simp only [lastProbe_of_not_dvd hdvd]
    exact h.counted reached hreached

/-- **A block that does not end the quarantine is counted.** -/
theorem observe (h : Counts blocks opening baseline index streak monitor) (hbehind : opening < index + 1)
    (hgoes : ¬hasFlag (monitor.observe (blocks (index + 1))).1.flags anomalyEnd = true) :
    Counts blocks opening baseline (index + 1) (monitor.streakAfter (blocks (index + 1)) streak)
      (monitor.observe (blocks (index + 1))).2 := by
  rw [h.anomalyEnd_iff, Bool.not_eq_true] at hgoes
  obtain ⟨segment, hphase⟩ := h.phase
  have hnumbered : (monitor.observe (blocks (index + 1))).2.nextIndex = index + 1 + 1 :=
    congrArg (· + 1) h.numbered
  cases monitor.move (blocks (index + 1)) with
  | passes before => rw [hphase] at before; cases before
  | enters _ before => rw [hphase] at before; cases before
  | leaves _ _ _ before _ hcompletes =>
      rw [hphase] at before
      cases before
      rw [hgoes] at hcompletes
      cases hcompletes
  | stays _ _ _ next before _ _ _ after hbaseline =>
      rw [hphase] at before
      cases before
      refine ⟨hnumbered, ⟨next, after⟩, hbaseline.trans h.frozen, streakAfter_le h.least hgoes, ?_⟩
      intro reached hreached
      rw [probeInterval_observe]
      exact h.counted_streakAfter hbehind hreached

end Counts

/-! ## Reasons -/

section Reasons

variable {monitor : Monitor} {block : Sighting}

section Quarantined

variable {reference : Float} {streak : Nat} {segment : Option Segment}
  (h : monitor.phase = .quarantined reference streak segment)

include h

theorem reason_eq_recoveryPending :
    (monitor.routeOf block).reason = some .recoveryPending ↔
      monitor.completes block streak = false ∧ monitor.streakAfter block streak = streak + 1 := by
  rw [reason_of_quarantined h]
  unfold completes streakAfter succeeds
  cases block.metrics.isHighEntropy <;> cases monitor.isProbe monitor.nextIndex <;>
    cases monitor.recovers block.probeRatio <;> by_cases hstreak : recoveryProbes ≤ streak + 1 <;>
    simp [hstreak]

theorem reason_eq_recoveryMatch :
    (monitor.routeOf block).reason = some .recoveryMatch ↔ monitor.completes block streak = true := by
  rw [reason_of_quarantined h]
  unfold completes succeeds
  cases block.metrics.isHighEntropy <;> cases monitor.isProbe monitor.nextIndex <;>
    cases monitor.recovers block.probeRatio <;> by_cases hstreak : recoveryProbes ≤ streak + 1 <;>
    simp [hstreak]

theorem reason_eq_recoveryProbeFail :
    (monitor.routeOf block).reason = some .recoveryProbeFail ↔
      monitor.isProbe monitor.nextIndex = true ∧ block.metrics.isHighEntropy = false ∧
        monitor.completes block streak = false ∧ monitor.streakAfter block streak = 0 := by
  rw [reason_of_quarantined h]
  unfold completes streakAfter succeeds
  cases block.metrics.isHighEntropy <;> cases monitor.isProbe monitor.nextIndex <;>
    cases monitor.recovers block.probeRatio <;> by_cases hstreak : recoveryProbes ≤ streak + 1 <;>
    simp [hstreak]

end Quarantined

variable (monitor block) in
/-- The reason for the route of a block says what the update makes of the block. -/
structure ReasonAgrees : Prop where
  pending : (monitor.routeOf block).reason = some .recoveryPending ↔
    monitor.phase.isQuarantined = true ∧ (monitor.observe block).2.phase.isQuarantined = true ∧
      (monitor.observe block).2.phase.streak = monitor.phase.streak + 1
  complete : (monitor.routeOf block).reason = some .recoveryMatch ↔
    monitor.phase.isQuarantined = true ∧ (monitor.observe block).2.phase.isQuarantined = false
  failed : (monitor.routeOf block).reason = some .recoveryProbeFail ↔
    monitor.isProbe monitor.nextIndex = true ∧ block.metrics.isHighEntropy = false ∧
      monitor.phase.isQuarantined = true ∧ (monitor.observe block).2.phase.isQuarantined = true ∧
      (monitor.observe block).2.phase.streak = 0

/-- A healthy column gives no reason that speaks of recovery. -/
theorem reasonAgrees_of_normal (h : monitor.phase = .normal) : monitor.ReasonAgrees block := by
  have hreason : (monitor.routeOf block).reason ≠ some .recoveryPending ∧
      (monitor.routeOf block).reason ≠ some .recoveryMatch ∧
      (monitor.routeOf block).reason ≠ some .recoveryProbeFail := by
    cases hnoise : block.metrics.isHighEntropy with
    | true =>
        rw [reason_routeOf_eq_entropyGate.mpr hnoise]
        decide
    | false => rcases reason_of_normal h hnoise with hreason | hreason | hreason <;> rw [hreason] <;> decide
  obtain ⟨hpending, hmatch, hfailed⟩ := hreason
  constructor
  · exact ⟨fun heq => absurd heq hpending, fun hquarantined => by rw [h] at hquarantined; cases hquarantined.1⟩
  · exact ⟨fun heq => absurd heq hmatch, fun hquarantined => by rw [h] at hquarantined; cases hquarantined.1⟩
  · exact ⟨fun heq => absurd heq hfailed, fun hprobe => by rw [h] at hprobe; cases hprobe.2.2.1⟩

variable (monitor block) in
/-- **A decision names what the update then counts.** -/
theorem reasonAgrees : monitor.ReasonAgrees block := by
  cases monitor.move block with
  | passes before => exact reasonAgrees_of_normal before
  | enters _ before => exact reasonAgrees_of_normal before
  | stays reference streak segment next before _ hcompletes _ after =>
      constructor
      · rw [reason_eq_recoveryPending before, before, after]
        exact ⟨fun h => ⟨rfl, rfl, h.2⟩, fun h => ⟨hcompletes, h.2.2⟩⟩
      · rw [reason_eq_recoveryMatch before, hcompletes, after]
        exact ⟨nofun, fun h => nomatch h.2⟩
      · rw [reason_eq_recoveryProbeFail before, before, after]
        exact ⟨fun h => ⟨h.1, h.2.1, rfl, rfl, h.2.2.2⟩, fun h => ⟨h.1, h.2.1, hcompletes, h.2.2.2.2⟩⟩
  | leaves reference streak segment before _ hcompletes _ after =>
      constructor
      · rw [reason_eq_recoveryPending before, hcompletes, after]
        exact ⟨fun h => (nomatch h.1), fun h => (nomatch h.2.1)⟩
      · rw [reason_eq_recoveryMatch before, before, after]
        exact ⟨fun _ => ⟨rfl, rfl⟩, fun _ => hcompletes⟩
      · rw [reason_eq_recoveryProbeFail before, hcompletes, after]
        exact ⟨fun h => (nomatch h.2.2.1), fun h => (nomatch h.2.2.2.1)⟩

end Reasons

/-! ## The run -/

section Run

variable (start : Monitor) (blocks : Nat → Sighting)

/-- The flags of block `index`. -/
def flagsAt (index : Nat) : UInt8 :=
  ((start.after blocks (index - 1)).observe (blocks index)).1.flags

variable {start blocks} {opening : Nat}

/-- **Until the quarantine ends, the streak counts the probes.** -/
theorem counts_after (hnumbered : (start.after blocks opening).nextIndex = opening + 1)
    (hstart : hasFlag (start.flagsAt blocks (opening + 1)) anomalyStart = true) (length : Nat)
    (hgoes : ∀ index, opening + 1 < index → index ≤ opening + 1 + length →
      ¬hasFlag (start.flagsAt blocks index) anomalyEnd = true) :
    ∃ streak, Counts blocks (opening + 1) (start.after blocks opening).baseline (opening + 1 + length) streak
      (start.after blocks (opening + 1 + length)) := by
  induction length with
  | zero =>
      have hfirst : Counts blocks (opening + 1) (start.after blocks opening).baseline (opening + 1) 0
          (start.after blocks (opening + 1)) := Counts.start hnumbered hstart
      exact ⟨0, hfirst⟩
  | succ length ih =>
      obtain ⟨streak, hcounts⟩ := ih fun index hlo hhi => hgoes index hlo (by omega)
      have hlast := hgoes (opening + 1 + length + 1) (by omega) (Nat.le_refl _)
      have hnext := hcounts.observe (by omega) hlast
      exact ⟨_, hnext⟩

theorem streak_after_le (h : start.phase.streak ≤ 2) (count : Nat) :
    (start.after blocks count).phase.streak ≤ 2 := by
  induction count with
  | zero => exact h
  | succ count ih => exact streak_observe_le ih

end Run

/-! ## Main result -/

/-- **When exactly a quarantine ends.** A new monitor with probe interval `P ≥ 1` takes in any blocks, which it
    numbers from 1. If block `s` opens a quarantine and none ends it before block `e`, then `e` ends it exactly
    if `e` is a multiple of `P`, `e - 2 * P` still lies behind `s`, and the three blocks `e - 2 * P`, `e - P` and
    `e` come back to the baseline from just before `s`; so `e` is at least `s + 2 * P + 1`. Only multiples of `P`
    ever end a quarantine, the streak never passes two, and every decision names what is then counted. -/
theorem quarantine_ends_iff (runId : String) (interval : Nat) (hinterval : 1 ≤ interval)
    (blocks : Nat → Sighting) :
    let start := Monitor.new runId interval
    (∀ count, (start.after blocks count).nextIndex = count + 1) ∧
      (∀ opening ending, 1 ≤ opening → opening < ending →
        hasFlag (start.flagsAt blocks opening) anomalyStart = true →
        (∀ index, opening < index → index < ending →
          ¬hasFlag (start.flagsAt blocks index) anomalyEnd = true) →
        let baseline := (start.after blocks (opening - 1)).baseline
        (hasFlag (start.flagsAt blocks ending) anomalyEnd = true ↔
          interval ∣ ending ∧ opening + 2 * interval < ending ∧
            baseline.RegainedBy (blocks (ending - 2 * interval)) ∧
            baseline.RegainedBy (blocks (ending - interval)) ∧ baseline.RegainedBy (blocks ending)) ∧
        (hasFlag (start.flagsAt blocks ending) anomalyEnd = true → opening + 2 * interval + 1 ≤ ending)) ∧
      (∀ index, 1 ≤ index → hasFlag (start.flagsAt blocks index) anomalyEnd = true → interval ∣ index) ∧
      (∀ count, (start.after blocks count).phase.streak ≤ 2) ∧
      (∀ count, (start.after blocks count).ReasonAgrees (blocks (count + 1))) := by
  intro start
  have hnumbered : ∀ count, (start.after blocks count).nextIndex = count + 1 :=
    nextIndex_after blocks runId interval
  have hprobes (count : Nat) : (start.after blocks count).probeInterval = interval := by
    rw [probeInterval_after]
    exact Nat.max_eq_left hinterval
  refine ⟨hnumbered, ?_, ?_, ?_, ?_⟩
  · intro opening ending hopening hbehind hstart hgoes baseline
    obtain ⟨before, rfl⟩ := Nat.exists_eq_add_of_le' hopening
    obtain ⟨length, rfl⟩ := Nat.exists_eq_add_of_lt hbehind
    obtain ⟨streak, hcounts⟩ := counts_after (hnumbered before) hstart length
      (fun index hlo hhi => hgoes index hlo (by omega))
    have hend := (hcounts.anomalyEnd_iff (blocks (before + 1 + length + 1))).trans hcounts.completes_iff
    rw [hprobes] at hend
    refine ⟨hend, ?_⟩
    intro hflag
    exact (hend.mp hflag).2.1
  · intro index hindex hflag
    obtain ⟨before, rfl⟩ := Nat.exists_eq_add_of_le' hindex
    have hprobe := isProbe_of_anomalyEnd hflag
    unfold isProbe at hprobe
    rw [decide_eq_true_iff, hprobes] at hprobe
    rw [Nat.add_sub_cancel, hnumbered] at hprobe
    exact Nat.dvd_of_mod_eq_zero hprobe
  · intro count
    have hnew : start.phase.streak ≤ 2 := Nat.zero_le 2
    exact streak_after_le hnew count
  · intro count
    exact reasonAgrees _ _

/-- A calm column with a drop at block 2 and noise at block 4. -/
def sampleColumn (index : Nat) : Sighting where
  metrics :=
    if index = 4 then { uniqueRatio := 0.9, uniqueDeltaRatio := 0.9, zeroTurnRatio := 0.5, stepP90 := 3 }
    else { uniqueRatio := 0.1, uniqueDeltaRatio := 0.1, zeroTurnRatio := 0.5, stepP90 := 3 }
  probeRatio := if index = 2 then 0.1 else 1.5
  input := 160
  output := 80
  headerSize := 11
  codecId := 1

/-- Block 4 would be the first good probe if it were no noise. So the quarantine lasts until block 10. -/
theorem sampleColumn_recovers :
    let start := Monitor.new "run" 2
    hasFlag (start.flagsAt sampleColumn 2) anomalyStart = true ∧
      (∀ index < 10, 2 < index → ¬hasFlag (start.flagsAt sampleColumn index) anomalyEnd = true) ∧
      hasFlag (start.flagsAt sampleColumn 10) anomalyEnd = true := by
  intro start
  have hstart : hasFlag (start.flagsAt sampleColumn 2) anomalyStart = true := by decide +kernel
  have hgoes : ∀ index < 10, 2 < index → ¬hasFlag (start.flagsAt sampleColumn index) anomalyEnd = true := by
    decide +kernel
  refine ⟨hstart, hgoes, ?_⟩
  obtain ⟨-, hends, -⟩ := quarantine_ends_iff "run" 2 (by decide) sampleColumn
  refine (hends 2 10 (by decide) (by decide) hstart (fun index hlo hhi => hgoes index hhi hlo)).1.mpr ?_
  refine ⟨by decide, by decide, ⟨by decide, ?_⟩, ⟨by decide, ?_⟩, ⟨by decide, ?_⟩⟩
  · decide +kernel
  · decide +kernel
  · decide +kernel

end Monitor

end SnapshotArchive

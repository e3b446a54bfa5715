import SnapshotArchive.Proofs.Anomalies
import SnapshotArchive.Proofs.Hysteresis

/-!
# `Proofs.Forgetting` — a quarantine leaves no trace in what follows it

Of all that a monitor records, its decisions read only five things: the probe interval, the number of blocks, the
baseline, the number of blocks that have trained it, and whether there is a quarantine, to what ratio it is to come
back and how many probes in a row have succeeded. Monitors that agree on these (`Monitor.Agrees`) pass the same
verdict on the same block and agree afterwards, whatever their totals, segments and worst blocks are.

While a quarantine lasts, only the number of blocks and the streak move, and the block that ends it does away with
the streak. So two columns that are alike outside a quarantine are told apart by nothing once it has ended.

## Contents
- **Training.** `Monitor.trainsOn_iff`, `Monitor.trains_of_changed`, `Monitor.training_of_quarantined`.
- **Agreement.** `Sighting.Agrees`, `Monitor.Agrees`; `Monitor.Agrees.observe`, the step for two monitors.
- **Quarantines.** `Monitor.Lasts`, `Monitor.training_after`, `Monitor.phase_after_of_ends`.
- **Main result.** `Monitor.verdictAt`, `Monitor.quarantine_forgotten`.
-/

namespace SnapshotArchive

namespace Monitor

variable {monitor other : Monitor} {block block' : Sighting}

/-! ## Training -/

theorem training_of_trainsOn_eq_false (h : monitor.trainsOn block = false) :
    (monitor.observe block).2.baseline = monitor.baseline ∧
      (monitor.observe block).2.trainedBlocks = monitor.trainedBlocks := by
  have hmoved : monitor.moved block = (monitor.stepOf block).2 := by
    unfold moved
    rw [h, if_neg nofun]
  rw [observe_eq, hmoved]
  exact monitor.training_stepOf block

/-- **Which blocks train**: those of the core path that end no quarantine and are not too diverse. None of them has
    a flag. -/
theorem trainsOn_iff :
    monitor.trainsOn block = true ↔
      (monitor.routeOf block).path = .core ∧ (monitor.observe block).1.flags = 0 ∧
        block.metrics.uniqueRatio ≤ 0.8 := by
  have hunfold : monitor.trainsOn block
      = (decide ((monitor.routeOf block).path = .core) && !hasFlag (monitor.observe block).1.flags anomalyEnd
          && decide (block.metrics.uniqueRatio ≤ 0.8)) := rfl
  rw [hunfold, Bool.and_eq_true, Bool.and_eq_true, decide_eq_true_iff, decide_eq_true_iff, Bool.not_eq_true',
    and_assoc]
  -- among the blocks on the core path, the flag tells those that end a quarantine from all others
  have hflags (hpath : (monitor.routeOf block).path = .core) :
      hasFlag (monitor.observe block).1.flags anomalyEnd = false ↔ (monitor.observe block).1.flags = 0 := by
    cases monitor.move block with
    | passes _ _ flags => rw [flags]; decide
    | enters _ _ path => rw [hpath] at path; cases path
    | stays _ _ _ _ _ path => rw [hpath] at path; cases path
    | leaves _ _ _ _ _ _ flags => rw [flags]; decide
  constructor
  · rintro ⟨hpath, hflag, hunique⟩
    exact ⟨hpath, (hflags hpath).mp hflag, hunique⟩
  · rintro ⟨hpath, hflag, hunique⟩
    exact ⟨hpath, (hflags hpath).mpr hflag, hunique⟩

/-- **Only training moves the baseline.** -/
theorem trains_of_changed
    (h : (monitor.observe block).2.baseline ≠ monitor.baseline ∨
      (monitor.observe block).2.trainedBlocks ≠ monitor.trainedBlocks) :
    (monitor.routeOf block).path = .core ∧ (monitor.observe block).1.flags = 0 ∧
      block.metrics.uniqueRatio ≤ 0.8 := by
  rw [← trainsOn_iff]
  cases htrains : monitor.trainsOn block with
  | true => rfl
  | false =>
      obtain ⟨hbaseline, htrained⟩ := training_of_trainsOn_eq_false htrains
      rcases h with hchanged | hchanged
      · exact absurd hbaseline hchanged
      · exact absurd htrained hchanged

/-- A block with a flag does not train. -/
theorem training_of_flags_ne_zero (h : (monitor.observe block).1.flags ≠ 0) :
    (monitor.observe block).2.baseline = monitor.baseline ∧
      (monitor.observe block).2.trainedBlocks = monitor.trainedBlocks := by
  refine training_of_trainsOn_eq_false (Bool.eq_false_iff.mpr fun htrains => ?_)
  exact h (trainsOn_iff.mp htrains).2.1

/-- Every block in quarantine has a flag. -/
theorem flags_ne_zero_of_quarantined (h : monitor.phase.isQuarantined = true) (block : Sighting) :
    (monitor.observe block).1.flags ≠ 0 := by
  cases monitor.move block with
  | passes before => rw [before] at h; cases h
  | enters _ before => rw [before] at h; cases h
  | stays _ _ _ _ _ _ _ flags => rw [flags]; decide
  | leaves _ _ _ _ _ _ flags => rw [flags]; decide

/-- A quarantine lasts until a block is flagged as its end. -/
theorem isQuarantined_observe (h : monitor.phase.isQuarantined = true)
    (hgoes : ¬hasFlag (monitor.observe block).1.flags anomalyEnd = true) :
    (monitor.observe block).2.phase.isQuarantined = true := by
  cases monitor.move block with
  | passes before => rw [before] at h; cases h
  | enters _ before => rw [before] at h; cases h
  | stays _ _ _ _ _ _ _ _ after => rw [after]; rfl
  | leaves _ _ _ _ _ _ flags => rw [flags] at hgoes; exact absurd (by decide) hgoes

/-- Nothing is left of a quarantine that a block has ended. -/
theorem phase_of_anomalyEnd (h : hasFlag (monitor.observe block).1.flags anomalyEnd = true) :
    (monitor.observe block).2.phase = .normal := by
  cases monitor.move block with
  | passes _ _ flags => rw [flags] at h; cases h
  | enters _ _ _ flags => rw [flags] at h; cases h
  | stays _ _ _ _ _ _ _ flags => rw [flags] at h; cases h
  | leaves _ _ _ _ _ _ _ after => exact after

end Monitor

/-! ## Agreement -/

/-- The blocks have the same figures, the same trial and the same sizes. -/
structure Sighting.Agrees (block other : Sighting) : Prop where
  metrics : block.metrics = other.metrics
  probeRatio : block.probeRatio = other.probeRatio
  input : block.input = other.input
  output : block.output = other.output

/-- A phase without its segment, which no decision reads. -/
def Phase.standing : Phase → Option (Float × Nat)
  | .normal => none
  | .quarantined reference streak _ => some (reference, streak)

namespace Monitor

/-- The monitors agree on all that decisions read. -/
structure Agrees (monitor other : Monitor) : Prop where
  probeInterval : monitor.probeInterval = other.probeInterval
  totalBlocks : monitor.totalBlocks = other.totalBlocks
  trainedBlocks : monitor.trainedBlocks = other.trainedBlocks
  baseline : monitor.baseline = other.baseline
  standing : monitor.phase.standing = other.phase.standing

namespace Agrees

variable {monitor other : Monitor} {block block' : Sighting}

/-- The phases of monitors that agree. -/
theorem phases (h : monitor.Agrees other) :
    (monitor.phase = .normal ∧ other.phase = .normal) ∨
      ∃ reference streak segment segment', monitor.phase = .quarantined reference streak segment ∧
        other.phase = .quarantined reference streak segment' := by
  have hstanding := h.standing
  cases hphase : monitor.phase with
  | normal =>
      cases hphase' : other.phase with
      | normal => exact .inl ⟨rfl, rfl⟩
      | quarantined => rw [hphase, hphase'] at hstanding; cases hstanding
  | quarantined reference streak segment =>
      cases hphase' : other.phase with
      | normal => rw [hphase, hphase'] at hstanding; cases hstanding
      | quarantined reference' streak' segment' =>
          rw [hphase, hphase'] at hstanding
          cases hstanding
          exact .inr ⟨reference, streak, segment, segment', rfl, rfl⟩

theorem nextIndex (h : monitor.Agrees other) : monitor.nextIndex = other.nextIndex :=
  congrArg (· + 1) h.totalBlocks

theorem isProbe (h : monitor.Agrees other) :
    monitor.isProbe monitor.nextIndex = other.isProbe other.nextIndex := by
  unfold Monitor.isProbe
  rw [h.nextIndex, h.probeInterval]

theorem referenceRatio (h : monitor.Agrees other) : monitor.referenceRatio = other.referenceRatio := by
  unfold Monitor.referenceRatio
  rcases h.phases with ⟨hphase, hphase'⟩ | ⟨_, _, _, _, hphase, hphase'⟩
  · rw [hphase, hphase', h.baseline]
  · rw [hphase, hphase']

theorem recovers (h : monitor.Agrees other) (probeRatio : Float) :
    monitor.recovers probeRatio = other.recovers probeRatio := by
  unfold Monitor.recovers
  rw [h.referenceRatio, h.baseline]

theorem anomaly? (h : monitor.Agrees other) (ratio : Float) (metrics : Metrics) :
    monitor.anomaly? ratio metrics = other.anomaly? ratio metrics := by
  unfold Monitor.anomaly? dropDeviation
  rw [h.referenceRatio, h.baseline]

/-- **The same decision.** -/
theorem routeOf (h : monitor.Agrees other) (hblock : block.Agrees block') :
    monitor.routeOf block = other.routeOf block' := by
  unfold Monitor.routeOf route
  rw [hblock.metrics, hblock.probeRatio]
  rcases h.phases with ⟨hphase, hphase'⟩ | ⟨_, _, _, _, hphase, hphase'⟩
  · rw [hphase, hphase']
    simp only [h.anomaly?]
  · rw [hphase, hphase']
    simp only [h.isProbe, h.recovers]

theorem streakAfter (h : monitor.Agrees other) (hblock : block.Agrees block') (streak : Nat) :
    monitor.streakAfter block streak = other.streakAfter block' streak := by
  unfold Monitor.streakAfter succeeds
  rw [h.isProbe, h.recovers, hblock.metrics, hblock.probeRatio]

/-- The same step, but for the records. -/
theorem stepOf (h : monitor.Agrees other) (hblock : block.Agrees block') :
    (monitor.stepOf block).1 = (other.stepOf block').1 ∧
      (monitor.stepOf block).2.Agrees (other.stepOf block').2 := by
  have hroute := h.routeOf hblock
  -- both take the same of the four steps, and what differs afterwards is a segment, which `standing` leaves out
  rcases h.phases with ⟨hphase, hphase'⟩ | ⟨reference, streak, _, _, hphase, hphase'⟩
  · cases hpath : (monitor.routeOf block).path with
    | core =>
        rw [stepOf_normal_core hphase hpath, stepOf_normal_core hphase' (hroute ▸ hpath)]
        exact ⟨rfl, h⟩
    | quarantine =>
        obtain ⟨segment, hstep⟩ := stepOf_normal_quarantine hphase hpath
        obtain ⟨segment', hstep'⟩ := stepOf_normal_quarantine hphase' (hroute ▸ hpath)
        rw [hstep, hstep', h.baseline]
        exact ⟨rfl, { h with baseline := rfl, standing := rfl }⟩
  · cases hpath : (monitor.routeOf block).path with
    | core =>
        obtain ⟨closed, hstep⟩ := stepOf_quarantined_core hphase hpath
        obtain ⟨closed', hstep'⟩ := stepOf_quarantined_core hphase' (hroute ▸ hpath)
        rw [hstep, hstep']
        exact ⟨rfl, { h with standing := rfl }⟩
    | quarantine =>
        obtain ⟨next, hstep⟩ := stepOf_quarantined_quarantine hphase hpath
        obtain ⟨next', hstep'⟩ := stepOf_quarantined_quarantine hphase' (hroute ▸ hpath)
        rw [hstep, hstep', h.streakAfter hblock]
        exact ⟨rfl, { h with standing := rfl }⟩

theorem train (h : monitor.Agrees other) (ratio uniqueRatio : Float) :
    (monitor.train ratio uniqueRatio).Agrees (other.train ratio uniqueRatio) where
  probeInterval := h.probeInterval
  totalBlocks := h.totalBlocks
  trainedBlocks := congrArg (· + 1) h.trainedBlocks
  baseline := by
    unfold Monitor.train
    rw [h.trainedBlocks, h.baseline]
  standing := h.standing

theorem trainsOn (h : monitor.Agrees other) (hblock : block.Agrees block') :
    monitor.trainsOn block = other.trainsOn block' := by
  show (decide ((monitor.routeOf block).path = .core) && !hasFlag (monitor.stepOf block).1 anomalyEnd
    && decide (block.metrics.uniqueRatio ≤ 0.8)) = _
  rw [h.routeOf hblock, (h.stepOf hblock).1, hblock.metrics]
  rfl

theorem moved (h : monitor.Agrees other) (hblock : block.Agrees block') :
    (monitor.moved block).Agrees (other.moved block') := by
  unfold Monitor.moved
  rw [h.trainsOn hblock, hblock.metrics, hblock.input, hblock.output]
  by_cases htrains : other.trainsOn block' = true
  · rw [if_pos htrains, if_pos htrains]
    exact (h.stepOf hblock).2.train _ _
  · rw [if_neg htrains, if_neg htrains]
    exact (h.stepOf hblock).2

/-- **The same verdict, and agreement afterwards.** -/
theorem observe (h : monitor.Agrees other) (hblock : block.Agrees block') :
    (monitor.observe block).1 = (other.observe block').1 ∧
      (monitor.observe block).2.Agrees (other.observe block').2 := by
  have hmoved := h.moved hblock
  have hquarantined : (monitor.moved block).phase.isQuarantined = (other.moved block').phase.isQuarantined := by
    rcases hmoved.phases with ⟨hphase, hphase'⟩ | ⟨_, _, _, _, hphase, hphase'⟩
    · rw [hphase, hphase']
    · rw [hphase, hphase']
      rfl
  rw [observe_eq, observe_eq]
  constructor
  · rw [(h.stepOf hblock).1, h.routeOf hblock, hquarantined, hblock.input, hblock.output, h.trainsOn hblock]
  · exact { hmoved with totalBlocks := congrArg (· + 1) h.totalBlocks }

end Agrees

/-! ## Quarantines -/

section Run

variable {start start' : Monitor} {blocks blocks' : Nat → Sighting} {opening ending : Nat}

variable (start blocks) in
/-- Block `opening` opens a quarantine that no block before `ending` has ended. -/
structure Lasts (opening ending : Nat) : Prop where
  first : 1 ≤ opening
  opens : hasFlag (start.flagsAt blocks opening) anomalyStart = true
  goes : ∀ index, opening < index → index < ending → ¬hasFlag (start.flagsAt blocks index) anomalyEnd = true

theorem Lasts.isQuarantined (h : start.Lasts blocks opening ending) {index : Nat} (hopening : opening ≤ index)
    (hending : index < ending) : (start.after blocks index).phase.isQuarantined = true := by
  obtain ⟨before, rfl⟩ := Nat.exists_eq_add_of_le' h.first
  obtain ⟨length, rfl⟩ := Nat.exists_eq_add_of_le hopening
  induction length with
  | zero =>
      obtain ⟨segment, hphase, -⟩ := enters_of_anomalyStart h.opens
      exact congrArg Phase.isQuarantined hphase
  | succ length ih =>
      exact isQuarantined_observe (ih (by omega) (by omega)) (h.goes (before + 1 + (length + 1)) (by omega) hending)

/-- **A quarantine does not train**, from the block that opens it to the one that ends it. -/
theorem Lasts.training (h : start.Lasts blocks opening ending) {index : Nat} (hopening : opening ≤ index)
    (hending : index ≤ ending) :
    (start.after blocks index).baseline = (start.after blocks (opening - 1)).baseline ∧
      (start.after blocks index).trainedBlocks = (start.after blocks (opening - 1)).trainedBlocks := by
  obtain ⟨before, hbefore⟩ := Nat.exists_eq_add_of_le' h.first
  obtain ⟨length, rfl⟩ := Nat.exists_eq_add_of_le hopening
  subst hbefore
  induction length with
  | zero =>
      -- the opening block is flagged, and no flagged block trains
      refine training_of_flags_ne_zero fun hnone => ?_
      have hopens := h.opens
      unfold flagsAt at hopens
      rw [Nat.add_sub_cancel, hnone] at hopens
      cases hopens
  | succ length ih =>
      have hquarantined : (start.after blocks (before + 1 + length)).phase.isQuarantined = true :=
        h.isQuarantined (by omega) (by omega)
      obtain ⟨hbaseline, htrained⟩ := training_of_flags_ne_zero
        (flags_ne_zero_of_quarantined hquarantined (blocks (before + 1 + length + 1)))
      obtain ⟨ihbaseline, ihtrained⟩ := ih (by omega) (by omega)
      exact ⟨hbaseline.trans ihbaseline, htrained.trans ihtrained⟩

/-- Monitors that agree after some blocks agree as long as their blocks do. -/
theorem agrees_after_add {count : Nat} (h : (start.after blocks count).Agrees (start'.after blocks' count))
    (length : Nat) (hblocks : ∀ index, count < index → index ≤ count + length → (blocks index).Agrees (blocks' index)) :
    (start.after blocks (count + length)).Agrees (start'.after blocks' (count + length)) := by
  induction length with
  | zero => exact h
  | succ length ih =>
      exact ((ih fun index hlo hhi => hblocks index hlo (by omega)).observe
        (hblocks (count + length + 1) (by omega) (Nat.le_refl _))).2

/-- **Agreement comes back with the end of a quarantine**, if it was there before the quarantine. -/
theorem agrees_after_ending (hbefore : (start.after blocks (opening - 1)).Agrees (start'.after blocks' (opening - 1)))
    (h : start.Lasts blocks opening ending) (h' : start'.Lasts blocks' opening ending) (hlength : opening < ending)
    (hends : hasFlag (start.flagsAt blocks ending) anomalyEnd = true)
    (hends' : hasFlag (start'.flagsAt blocks' ending) anomalyEnd = true) :
    (start.after blocks ending).Agrees (start'.after blocks' ending) := by
  obtain ⟨hbaseline, htrained⟩ := h.training (Nat.le_of_lt hlength) (Nat.le_refl _)
  obtain ⟨hbaseline', htrained'⟩ := h'.training (Nat.le_of_lt hlength) (Nat.le_refl _)
  have hinterval := hbefore.probeInterval
  have htotal := hbefore.totalBlocks
  rw [probeInterval_after, probeInterval_after] at hinterval
  rw [totalBlocks_after, totalBlocks_after] at htotal
  -- the interval and the number of blocks are those of any run, the training has stood still since before the
  -- opening, and the end has left nothing of the phase
  obtain ⟨last, rfl⟩ := Nat.exists_eq_add_of_lt (Nat.lt_of_le_of_lt (Nat.zero_le opening) hlength)
  have hphase : (start.after blocks (0 + last + 1)).phase = .normal := phase_of_anomalyEnd hends
  have hphase' : (start'.after blocks' (0 + last + 1)).phase = .normal := phase_of_anomalyEnd hends'
  constructor
  · rw [probeInterval_after, probeInterval_after, hinterval]
  · rw [totalBlocks_after, totalBlocks_after]
    omega
  · rw [htrained, htrained', hbefore.trainedBlocks]
  · rw [hbaseline, hbaseline', hbefore.baseline]
  · rw [hphase, hphase']

variable (start blocks) in
/-- The verdict on block `index`. -/
def verdictAt (index : Nat) : Verdict := ((start.after blocks (index - 1)).observe (blocks index)).1

end Run

/-! ## Main result -/

/-- **A quarantine leaves no trace in what follows it.** A new monitor takes in any blocks, numbered from 1.

    While a quarantine lasts, from the block that opens it to the one that ends it, the baseline and the number of
    trained blocks are what they were before. A block that changes them has taken the core path without a flag, and
    its values are not too diverse.

    Let another monitor with the same probe interval take in blocks that are the same but for those of a quarantine
    that both columns enter at block `opening` and leave at block `ending`. Then both monitors pass the same verdict
    on every block before and after. -/
theorem quarantine_forgotten (runId runId' : String) (interval : Nat) (blocks blocks' : Nat → Sighting) :
    let start := Monitor.new runId interval
    let start' := Monitor.new runId' interval
    (∀ opening ending, start.Lasts blocks opening ending → ∀ index, opening ≤ index → index ≤ ending →
      (start.after blocks index).baseline = (start.after blocks (opening - 1)).baseline ∧
        (start.after blocks index).trainedBlocks = (start.after blocks (opening - 1)).trainedBlocks) ∧
      (∀ index, 1 ≤ index →
        (start.after blocks index).baseline ≠ (start.after blocks (index - 1)).baseline ∨
          (start.after blocks index).trainedBlocks ≠ (start.after blocks (index - 1)).trainedBlocks →
        (start.verdictAt blocks index).route.path = .core ∧ (start.verdictAt blocks index).flags = 0 ∧
          (blocks index).metrics.uniqueRatio ≤ 0.8) ∧
      ∀ opening ending, opening < ending → start.Lasts blocks opening ending → start'.Lasts blocks' opening ending →
        hasFlag (start.flagsAt blocks ending) anomalyEnd = true →
        hasFlag (start'.flagsAt blocks' ending) anomalyEnd = true →
        (∀ index, 1 ≤ index → index < opening ∨ ending < index → (blocks index).Agrees (blocks' index)) →
        ∀ index, 1 ≤ index → index < opening ∨ ending < index →
          start.verdictAt blocks index = start'.verdictAt blocks' index := by
  intro start start'
  refine ⟨fun opening ending h index hopening hending => h.training hopening hending, ?_, ?_⟩
  · intro index hindex hchanged
    obtain ⟨before, rfl⟩ := Nat.exists_eq_add_of_le' hindex
    exact trains_of_changed hchanged
  · intro opening ending hlength h h' hends hends' hblocks
    -- new monitors agree, and do so up to the quarantine; after it agreement starts anew at its end
    have hnew : (start.after blocks 0).Agrees (start'.after blocks' 0) := ⟨rfl, rfl, rfl, rfl, rfl⟩
    have hbefore (count : Nat) (hcount : count < opening) :
        (start.after blocks count).Agrees (start'.after blocks' count) := by
      have hfirst := agrees_after_add hnew count fun index hlo hhi => hblocks index hlo (.inl (by omega))
      rwa [Nat.zero_add] at hfirst
    have hending := agrees_after_ending (hbefore (opening - 1) (Nat.sub_lt h.first Nat.one_pos)) h h' hlength
      hends hends'
    intro index hindex hoff
    have hagrees : (start.after blocks (index - 1)).Agrees (start'.after blocks' (index - 1)) := by
      rcases hoff with hlo | hhi
      · exact hbefore (index - 1) (by omega)
      · obtain ⟨length, hlast⟩ := Nat.exists_eq_add_of_le (Nat.le_sub_one_of_lt hhi)
        rw [hlast]
        exact agrees_after_add hending length fun later hlo _ => hblocks later (by omega) (.inr hlo)
    exact (hagrees.observe (hblocks index hindex hoff)).1

/-- The sample column with much worse noise in its quarantine. -/
def disturbedColumn (index : Nat) : Sighting :=
  if index = 3 then { sampleColumn 4 with input := 8000, output := 9000 } else sampleColumn index

/-- The quarantine of both columns lasts from block 2 to block 10. Their totals differ for good, their verdicts do
    not. -/
theorem disturbedColumn_forgotten :
    let start := Monitor.new "run" 2
    let start' := Monitor.new "rerun" 2
    start.Lasts sampleColumn 2 10 ∧ start'.Lasts disturbedColumn 2 10 ∧
      (start.after sampleColumn 10).tally ≠ (start'.after disturbedColumn 10).tally ∧
      (start.after sampleColumn 5).baseline = (start.after sampleColumn 1).baseline ∧
      ∀ index, 10 < index → start.verdictAt sampleColumn index = start'.verdictAt disturbedColumn index := by
  intro start start'
  have hlasts : start.Lasts sampleColumn 2 10 := by
    have hgoes : ∀ index < 10, 2 < index → ¬hasFlag (start.flagsAt sampleColumn index) anomalyEnd = true := by
      decide +kernel
    exact ⟨by decide, by decide +kernel, fun index hlo hhi => hgoes index hhi hlo⟩
  have hlasts' : start'.Lasts disturbedColumn 2 10 := by
    have hgoes : ∀ index < 10, 2 < index → ¬hasFlag (start'.flagsAt disturbedColumn index) anomalyEnd = true := by
      decide +kernel
    exact ⟨by decide, by decide +kernel, fun index hlo hhi => hgoes index hhi hlo⟩
  have hblocks (index : Nat) (hoff : index < 2 ∨ 10 < index) :
      (sampleColumn index).Agrees (disturbedColumn index) := by
    unfold disturbedColumn
    rw [if_neg (by omega)]
    exact ⟨rfl, rfl, rfl, rfl⟩
  obtain ⟨htraining, -, hverdicts⟩ := quarantine_forgotten "run" "rerun" 2 sampleColumn disturbedColumn
  refine ⟨hlasts, hlasts', by decide +kernel, (htraining 2 10 hlasts 5 (by decide) (by decide)).1, ?_⟩
  intro index hindex
  exact hverdicts 2 10 (by decide) hlasts hlasts' (by decide +kernel) (by decide +kernel)
    (fun other _ hoff => hblocks other hoff) index (by omega) (.inr hindex)

end Monitor

end SnapshotArchive

import SnapshotArchive.Proofs.Recovery
import SnapshotArchive.Proofs.Segments

/-!
# `Proofs.SegmentContents` — what a segment says of the blocks it covers

A segment is written in three places: the block that opens the quarantine begins it, every block that remains in
quarantine adds to it, and the block that ends the quarantine closes it, and adds nothing. So what it says is about
the blocks from the first one up to, but not including, the last. The first is no probe of the quarantine, even if its
number is that of one.

The open segment carries the invariant (`Monitor.Growing`): it covers the blocks so far, and it has counted at least as
many successes as there are in the streak. The streak starts anew with a probe that fails, the successes do not. Since
the probe that ends a quarantine finds two in the streak, a segment that is closed by it has two successes at least.

## Contents
- **Blocks.** `Sighting.ratio`, `Monitor.SucceedsAt`, `later`, the blocks behind the first one.
- **One segment.** `Segment.Covers`; `Segment.Covers.begin`, `Segment.Covers.extend`.
- **Invariant.** `Monitor.Growing`, `Monitor.Filed`, `Monitor.Kept`; `Monitor.Kept.observe`, `Monitor.kept_after`.
- **Main result.** `Monitor.segment_contents`.
-/

namespace SnapshotArchive

/-! ## Blocks -/

/-- Raw bytes per byte of the payload. An empty payload counts as one byte. -/
def Sighting.ratio (block : Sighting) : Float := countRatio block.input (max block.output 1)

/-- The blocks behind block `opening`, up to block `last`. -/
def later (opening last : Nat) : List Nat := List.range' (opening + 1) (last - opening)

section Later

variable {opening last index : Nat}

theorem later_self (opening : Nat) : later opening opening = [] := by
  rw [later, Nat.sub_self]
  rfl

theorem later_succ (h : opening ≤ last) : later opening (last + 1) = later opening last ++ [last + 1] := by
  have hlast : opening + 1 + (last - opening) = last + 1 := by omega
  rw [later, Nat.succ_sub h, List.range'_1_concat, hlast]
  rfl

theorem mem_opening_later (h : opening ≤ last) :
    index ∈ opening :: later opening last ↔ opening ≤ index ∧ index ≤ last := by
  rw [List.mem_cons, later, List.mem_range'_1]
  omega

/-- The figures of the blocks from `opening` to `last`. -/
theorem mem_figures (h : opening ≤ last) (figure : Nat → Float) {x : Float} :
    x ∈ figure opening :: (later opening last).map figure ↔
      ∃ index, opening ≤ index ∧ index ≤ last ∧ figure index = x := by
  rw [← List.map_cons, List.mem_map]
  simp only [mem_opening_later h, and_assoc]

theorem foldl_later_succ (h : opening ≤ last) (combine : Float → Float → Float) (figure : Nat → Float)
    (first : Float) :
    ((later opening (last + 1)).map figure).foldl combine first
      = combine (((later opening last).map figure).foldl combine first) (figure (last + 1)) := by
  rw [later_succ h, List.map_append, List.foldl_append]
  rfl

theorem countP_later_succ (h : opening ≤ last) (p : Nat → Bool) :
    (later opening (last + 1)).countP p = (later opening last).countP p + (p (last + 1)).toNat := by
  rw [later_succ h, List.countP_append, List.countP_singleton]
  cases p (last + 1) <;> rfl

end Later

namespace Monitor

section Run

variable (start : Monitor) (blocks : Nat → Sighting)

/-- Block `index` is not gated as noise, and its trial comes back to the baseline from just before block `opening`: it
    falls short of it by ten deviations at most, of which none counts as less than a tenth. -/
def SucceedsAt (opening index : Nat) : Prop :=
  let baseline := (start.after blocks (opening - 1)).baseline
  (start.verdictAt blocks index).route.reason ≠ some .entropyGate ∧
    baseline.ratio - 10.0 * floatMax baseline.deviation 0.1 ≤ (blocks index).probeRatio

instance (opening index : Nat) : Decidable (start.SucceedsAt blocks opening index) :=
  inferInstanceAs (Decidable (_ ∧ _))

variable {start blocks} in
theorem succeedsAt_iff {opening index : Nat} :
    start.SucceedsAt blocks opening index ↔
      (start.after blocks (opening - 1)).baseline.RegainedBy (blocks index) := by
  have hgate : (start.verdictAt blocks index).route.reason ≠ some .entropyGate ↔
      (blocks index).metrics.isHighEntropy = false := by
    rw [← Bool.not_eq_true, Ne]
    exact not_congr reason_routeOf_eq_entropyGate
  unfold SucceedsAt Baseline.RegainedBy
  rw [hgate]

end Run

end Monitor

/-! ## One segment -/

/-- The segment covers the blocks from its first one up to block `last`. -/
structure Segment.Covers (segment : Segment) (start : Monitor) (blocks : Nat → Sighting) (last : Nat) : Prop where
  /-- The reason is that of the first block. -/
  reasonCode : ∃ reason, (start.verdictAt blocks segment.startBlock).route.reason = some reason ∧
    segment.reasonCode = reason.name
  /-- The least ratio and the greatest share of distinct values are those of all the blocks, in their order. -/
  minRatio : segment.minRatio = ((later segment.startBlock last).map fun index => (blocks index).ratio).foldl floatMin
    (blocks segment.startBlock).ratio
  maxUniqueRatio : segment.maxUniqueRatio =
    ((later segment.startBlock last).map fun index => (blocks index).metrics.uniqueRatio).foldl floatMax
      (blocks segment.startBlock).metrics.uniqueRatio
  /-- All blocks but the first can be probes. -/
  probeAttempts : segment.probeAttempts =
    (later segment.startBlock last).countP fun index => start.probeInterval ∣ index
  probeSuccesses : segment.probeSuccesses = (later segment.startBlock last).countP fun index =>
    start.probeInterval ∣ index ∧ start.SucceedsAt blocks segment.startBlock index

namespace Segment.Covers

variable {segment : Segment} {start : Monitor} {blocks : Nat → Sighting} {last : Nat}

/-- **A segment begins with its first block.** -/
theorem begin {number opening : Nat} {reason : Reason}
    (hreason : (start.verdictAt blocks opening).route.reason = some reason) :
    (Segment.start number opening reason.name (blocks opening).ratio (blocks opening).metrics.uniqueRatio).Covers
      start blocks opening where
  reasonCode := ⟨reason, hreason, rfl⟩
  minRatio := by simp [Segment.start, later_self]
  maxUniqueRatio := by simp [Segment.start, later_self]
  probeAttempts := by simp [Segment.start, later_self]
  probeSuccesses := by simp [Segment.start, later_self]

/-- **A segment takes in the next block.** -/
theorem extend (h : segment.Covers start blocks last) (hbegun : segment.startBlock ≤ last) :
    (segment.extend (decide (start.probeInterval ∣ last + 1))
      (decide (start.probeInterval ∣ last + 1 ∧ start.SucceedsAt blocks segment.startBlock (last + 1)))
      (blocks (last + 1)).ratio (blocks (last + 1)).metrics.uniqueRatio).Covers start blocks (last + 1) where
  reasonCode := h.reasonCode
  minRatio := by
    show floatMin segment.minRatio _ = _
    rw [h.minRatio]
    exact (foldl_later_succ hbegun floatMin (fun index => (blocks index).ratio) _).symm
  maxUniqueRatio := by
    show floatMax segment.maxUniqueRatio _ = _
    rw [h.maxUniqueRatio]
    exact (foldl_later_succ hbegun floatMax (fun index => (blocks index).metrics.uniqueRatio) _).symm
  probeAttempts := by
    show segment.probeAttempts + _ = _
    rw [h.probeAttempts]
    exact (countP_later_succ hbegun _).symm
  probeSuccesses := by
    show segment.probeSuccesses + _ = _
    rw [h.probeSuccesses]
    exact (countP_later_succ hbegun _).symm

/-- Closing a segment changes nothing of what it says of its blocks. -/
theorem close (h : segment.Covers start blocks last) (ending : Nat) :
    (segment.close ending).Covers start blocks last :=
  ⟨h.reasonCode, h.minRatio, h.maxUniqueRatio, h.probeAttempts, h.probeSuccesses⟩

/-- A probe that succeeds is a probe. -/
theorem successes_le (h : segment.Covers start blocks last) : segment.probeSuccesses ≤ segment.probeAttempts := by
  rw [h.probeSuccesses, h.probeAttempts]
  refine List.countP_mono_left fun index _ hgood => ?_
  exact decide_eq_true (of_decide_eq_true hgood).1

/-- The least ratio is that of one of the blocks, and no other has a lesser one. -/
theorem minRatio_least (h : segment.Covers start blocks last) (hbegun : segment.startBlock ≤ last) :
    (∃ index, segment.startBlock ≤ index ∧ index ≤ last ∧ (blocks index).ratio = segment.minRatio) ∧
      ∀ index, segment.startBlock ≤ index → index ≤ last → ¬(blocks index).ratio < segment.minRatio := by
  have hfigures {x : Float} := @mem_figures _ _ hbegun (fun index => (blocks index).ratio) x
  obtain ⟨hmem, hleast⟩ := FloatOrder.foldl_floatMin (blocks segment.startBlock).ratio
    ((later segment.startBlock last).map fun index => (blocks index).ratio)
  rw [← h.minRatio] at hmem hleast
  exact ⟨hfigures.mp hmem, fun index hlo hhi => hleast _ (hfigures.mpr ⟨index, hlo, hhi, rfl⟩)⟩

/-- The greatest share of distinct values is that of one of the blocks, and no other has a greater one. -/
theorem maxUniqueRatio_greatest (h : segment.Covers start blocks last) (hbegun : segment.startBlock ≤ last) :
    (∃ index, segment.startBlock ≤ index ∧ index ≤ last ∧
        (blocks index).metrics.uniqueRatio = segment.maxUniqueRatio) ∧
      ∀ index, segment.startBlock ≤ index → index ≤ last →
        ¬segment.maxUniqueRatio < (blocks index).metrics.uniqueRatio := by
  have hfigures {x : Float} := @mem_figures _ _ hbegun (fun index => (blocks index).metrics.uniqueRatio) x
  obtain ⟨hmem, hgreatest⟩ := FloatOrder.foldl_floatMax (blocks segment.startBlock).metrics.uniqueRatio
    ((later segment.startBlock last).map fun index => (blocks index).metrics.uniqueRatio)
  rw [← h.maxUniqueRatio] at hmem hgreatest
  exact ⟨hfigures.mp hmem, fun index hlo hhi => hgreatest _ (hfigures.mpr ⟨index, hlo, hhi, rfl⟩)⟩

end Segment.Covers

/-! ## Invariant -/

namespace Monitor

section Block

variable {monitor : Monitor} {block : Sighting}

/-- A block that opens a quarantine has a reason. -/
theorem exists_reason_of_anomalyStart (h : hasFlag (monitor.observe block).1.flags anomalyStart = true) :
    ∃ reason, (monitor.routeOf block).reason = some reason := by
  cases monitor.move block with
  | passes _ _ flags => rw [flags] at h; cases h
  | stays _ _ _ _ before => exact ⟨_, reason_of_quarantined before⟩
  | leaves _ _ _ before => exact ⟨_, reason_of_quarantined before⟩
  | enters _ before path =>
      unfold routeOf route at path ⊢
      rw [before] at path ⊢
      split
      · exact ⟨_, rfl⟩
      · rename_i hnoise
        rw [if_neg hnoise] at path
        cases hanomaly : monitor.anomaly? block.probeRatio block.metrics with
        | none => rw [hanomaly] at path; cases path
        | some reason => exact ⟨reason, rfl⟩

/-- The last probe that a quarantine waits for finds two in the streak. -/
theorem two_le_of_completes {streak : Nat} (h : monitor.completes block streak = true) : 2 ≤ streak := by
  unfold completes at h
  rw [Bool.and_eq_true, decide_eq_true_iff] at h
  exact Nat.le_of_succ_le_succ h.2

end Block

section Run

variable {start : Monitor} {blocks : Nat → Sighting} {count streak ending : Nat} {segment : Segment}

variable (start blocks) in
/-- The open segment and the streak after block `count`. -/
structure Growing (count streak : Nat) (segment : Segment) : Prop where
  begun : segment.startBlock ≤ count
  lasts : start.Lasts blocks segment.startBlock (count + 1)
  covers : segment.Covers start blocks count
  counts : Counts blocks segment.startBlock (start.after blocks (segment.startBlock - 1)).baseline count streak
    (start.after blocks count)
  /-- A probe that fails ends the streak, but takes no success back. -/
  successes : streak ≤ segment.probeSuccesses

variable (start blocks) in
/-- A segment that block `ending` has closed. -/
structure Filed (ending : Nat) (segment : Segment) : Prop where
  behind : segment.startBlock < ending
  lasts : start.Lasts blocks segment.startBlock ending
  ends : hasFlag (start.flagsAt blocks ending) anomalyEnd = true
  endBlock : segment.endBlock = some ending
  covers : segment.Covers start blocks (ending - 1)
  successes : 2 ≤ segment.probeSuccesses

variable (start blocks) in
/-- What the segments after block `count` say. -/
structure Kept (count : Nat) : Prop where
  closed : ∀ segment ∈ (start.after blocks count).closed, ∃ ending ≤ count, start.Filed blocks ending segment
  isOpen : (start.after blocks count).phase = .normal ∨
    ∃ reference streak segment, (start.after blocks count).phase = .quarantined reference streak (some segment) ∧
      start.Growing blocks count streak segment

namespace Growing

/-- The figures by which the next block is taken in. -/
theorem extended_eq (h : start.Growing blocks count streak segment) :
    (start.after blocks count).extended (blocks (count + 1)) segment =
      segment.extend (decide (start.probeInterval ∣ count + 1))
        (decide (start.probeInterval ∣ count + 1 ∧ start.SucceedsAt blocks segment.startBlock (count + 1)))
        (blocks (count + 1)).ratio (blocks (count + 1)).metrics.uniqueRatio := by
  have hprobe := h.counts.isProbe_iff
  rw [probeInterval_after] at hprobe
  have hisProbe : (start.after blocks count).isProbe (start.after blocks count).nextIndex
      = decide (start.probeInterval ∣ count + 1) := by
    rw [Bool.eq_iff_iff, hprobe, decide_eq_true_iff]
  have hisGood : (start.after blocks count).isGoodProbe ((start.after blocks count).outcomeOf (blocks (count + 1)))
      = decide (start.probeInterval ∣ count + 1 ∧ start.SucceedsAt blocks segment.startBlock (count + 1)) := by
    rw [isGoodProbe_outcomeOf, Bool.eq_iff_iff, Bool.and_eq_true, hprobe, h.counts.succeeds_iff, decide_eq_true_iff,
      succeedsAt_iff]
  unfold extended
  rw [hisProbe, hisGood]
  rfl

/-- What the streak gains, the successes gain as well. -/
theorem successes_extended (h : start.Growing blocks count streak segment) :
    (start.after blocks count).streakAfter (blocks (count + 1)) streak ≤
      ((start.after blocks count).extended (blocks (count + 1)) segment).probeSuccesses := by
  have hbefore := h.successes
  show _ ≤ segment.probeSuccesses + (isGoodProbe _ _).toNat
  rw [isGoodProbe_outcomeOf]
  unfold streakAfter
  cases (start.after blocks count).isProbe (start.after blocks count).nextIndex <;>
    cases (start.after blocks count).succeeds (blocks (count + 1)) <;> simp <;> omega

/-- **A block that does not end the quarantine makes the segment grow.** -/
theorem observe (h : start.Growing blocks count streak segment)
    (hgoes : ¬hasFlag (start.flagsAt blocks (count + 1)) anomalyEnd = true) :
    start.Growing blocks (count + 1) ((start.after blocks count).streakAfter (blocks (count + 1)) streak)
      ((start.after blocks count).extended (blocks (count + 1)) segment) where
  begun := Nat.le_succ_of_le h.begun
  lasts := h.lasts.succ hgoes
  covers := by
    rw [h.extended_eq]
    exact h.covers.extend h.begun
  counts := h.counts.observe (Nat.lt_succ_of_le h.begun) hgoes
  successes := h.successes_extended

/-- **The block that ends the quarantine files the segment.** -/
theorem filed (h : start.Growing blocks count streak segment)
    (hends : hasFlag (start.flagsAt blocks (count + 1)) anomalyEnd = true) :
    start.Filed blocks (count + 1) (segment.close (count + 1)) where
  behind := Nat.lt_succ_of_le h.begun
  lasts := h.lasts
  ends := hends
  endBlock := rfl
  covers := h.covers.close _
  successes := Nat.le_trans (two_le_of_completes ((h.counts.anomalyEnd_iff _).mp hends)) h.successes

end Growing

/-- In quarantine the open segment grows. -/
theorem Kept.growing (h : start.Kept blocks count) {reference : Float} {segment : Option Segment}
    (hphase : (start.after blocks count).phase = .quarantined reference streak segment) :
    ∃ current, segment = some current ∧ start.Growing blocks count streak current := by
  obtain hnormal | ⟨_, _, current, hcurrent, hgrowing⟩ := h.isOpen
  · rw [hphase] at hnormal
    cases hnormal
  · rw [hphase] at hcurrent
    cases hcurrent
    exact ⟨current, rfl, hgrowing⟩

section Numbered

variable (hnumbered : ∀ count, (start.after blocks count).nextIndex = count + 1)

include hnumbered

/-- **A block that starts a quarantine begins a segment.** -/
theorem growing_newSegment (hstart : hasFlag (start.flagsAt blocks (count + 1)) anomalyStart = true) :
    start.Growing blocks (count + 1) 0 ((start.after blocks count).newSegment (blocks (count + 1))) := by
  obtain ⟨reason, hreason⟩ := exists_reason_of_anomalyStart hstart
  have hroute : ((start.after blocks count).routeOf (blocks (count + 1))).reason = some reason := hreason
  have hsegment : (start.after blocks count).newSegment (blocks (count + 1)) =
      Segment.start ((start.after blocks count).closed.length + 1) (count + 1) reason.name
        (blocks (count + 1)).ratio (blocks (count + 1)).metrics.uniqueRatio := by
    unfold newSegment
    rw [hnumbered, hroute]
    rfl
  rw [hsegment]
  exact {
    begun := Nat.le_refl _
    lasts := ⟨Nat.succ_pos count, hstart, fun index hlo hhi => absurd hlo (Nat.not_lt_of_le (Nat.le_of_lt_succ hhi))⟩
    covers := .begin hreason
    counts := Counts.start (hnumbered count) hstart
    successes := Nat.zero_le _ }

/-- **A block keeps the invariant.** -/
theorem Kept.observe (h : start.Kept blocks count) : start.Kept blocks (count + 1) := by
  have hearlier : ∀ segment ∈ (start.after blocks count).closed,
      ∃ ending ≤ count + 1, start.Filed blocks ending segment := by
    intro segment hmem
    obtain ⟨ending, hending, hfiled⟩ := h.closed segment hmem
    exact ⟨ending, Nat.le_succ_of_le hending, hfiled⟩
  have hflags {flags : UInt8} (h : ((start.after blocks count).observe (blocks (count + 1))).1.flags = flags) :
      start.flagsAt blocks (count + 1) = flags := h
  have hkept (hclosed : (start.after blocks (count + 1)).closed = (start.after blocks count).closed) :
      ∀ segment ∈ (start.after blocks (count + 1)).closed, ∃ ending ≤ count + 1, start.Filed blocks ending segment :=
    hclosed ▸ hearlier
  cases (start.after blocks count).filing (blocks (count + 1)) with
  | passes _ _ closed after => exact ⟨hkept closed, .inl after⟩
  | opened reference _ flags closed after =>
      have hstart : hasFlag (start.flagsAt blocks (count + 1)) anomalyStart = true := by
        rw [hflags flags]
        decide
      exact ⟨hkept closed, .inr ⟨_, _, _, after, growing_newSegment hnumbered hstart⟩⟩
  | continued reference streak next segment before flags closed after =>
      have hgoes : ¬hasFlag (start.flagsAt blocks (count + 1)) anomalyEnd = true := by
        rw [hflags flags]
        decide
      obtain ⟨current, rfl, hgrowing⟩ := h.growing before
      have hgrown := hgrowing.observe hgoes
      -- the streak of the phase is the one that is counted
      obtain ⟨_, hphase⟩ := hgrown.counts.phase
      have hnext : next = (start.after blocks count).streakAfter (blocks (count + 1)) streak := by
        rw [show (start.after blocks (count + 1)).phase = _ from after] at hphase
        cases hphase
        rfl
      exact ⟨hkept closed, .inr ⟨_, _, _, after, hnext ▸ hgrown⟩⟩
  | ended reference streak segment before flags closed after =>
      have hends : hasFlag (start.flagsAt blocks (count + 1)) anomalyEnd = true := by
        rw [hflags flags]
        decide
      obtain ⟨current, rfl, hgrowing⟩ := h.growing before
      refine ⟨?_, .inl after⟩
      rw [show (start.after blocks (count + 1)).closed = _ from closed, hnumbered]
      intro segment hmem
      rcases List.mem_append.mp hmem with hmem | hmem
      · exact hearlier segment hmem
      · obtain rfl := List.mem_singleton.mp hmem
        exact ⟨count + 1, Nat.le_refl _, hgrowing.filed hends⟩

/-- **A whole column keeps the invariant.** -/
theorem kept_after (hclosed : start.closed = []) (hnormal : start.phase = .normal) (count : Nat) :
    start.Kept blocks count := by
  induction count with
  | zero =>
      refine ⟨fun segment hmem => ?_, .inl hnormal⟩
      rw [show (start.after blocks 0).closed = [] from hclosed] at hmem
      cases hmem
  | succ count ih => exact ih.observe hnumbered

/-- **What the report says**: a segment has been closed by a block, or it is the open one, closed at the last block. -/
theorem Kept.report (h : start.Kept blocks count) (hmem : segment ∈ (start.after blocks count).report.1.segments) :
    (∃ ending ≤ count, start.Filed blocks ending segment) ∨
      ∃ streak current, start.Growing blocks count streak current ∧ segment = current.close count := by
  rw [segments_report] at hmem
  rcases List.mem_append.mp hmem with hmem | hmem
  · exact .inl (h.closed segment hmem)
  · right
    cases hphase : (start.after blocks count).phase with
    | normal =>
        rw [hphase] at hmem
        cases hmem
    | quarantined reference streak open? =>
        obtain ⟨current, rfl, hgrowing⟩ := h.growing hphase
        rw [hphase] at hmem
        obtain rfl := List.mem_singleton.mp hmem
        -- a quarantine has been opened, so that there is a last block
        obtain ⟨before, rfl⟩ := Nat.exists_eq_add_of_le' (Nat.le_trans hgrowing.lasts.first hgrowing.begun)
        have hlast : (start.after blocks (before + 1)).lastIndex = before + 1 := hnumbered before
        exact ⟨streak, current, hgrowing, congrArg current.close hlast⟩

end Numbered

end Run

/-! ## Main result -/

/-- **What a segment says.** A new monitor with probe interval `P ≥ 1` takes in `count` blocks, whatever they are,
    numbered from 1, and is asked for its report. Every segment of it stands for a quarantine, which begins at the
    segment's first block. Either a later block has ended it, and the segment is closed there, or none has, and then the
    segment is closed at the last block. What it says is about the blocks from its first one up to, but not including,
    the one that has ended it, or up to the last:

    - the reason is that for which the first of them was quarantined;
    - the ratio is the least of them all, and the share of distinct values the greatest, taken in their order;
    - as many probes were made as there are multiples of `P` among them, the first left out;
    - as many have succeeded as of these were not gated as noise and came back to the baseline from just before the
      first. These are no more than were made, and two at least if a block has ended the quarantine. -/
theorem segment_contents (runId : String) (interval : Nat) (hinterval : 1 ≤ interval) (blocks : Nat → Sighting)
    (count : Nat) :
    let start := Monitor.new runId interval
    ∀ segment ∈ (start.after blocks count).report.1.segments, ∃ ending,
      let opening := segment.startBlock
      let baseline := (start.after blocks (opening - 1)).baseline
      let others := List.range' (opening + 1) (ending - 1 - opening)
      let ratio (index : Nat) : Float := countRatio (blocks index).input (max (blocks index).output 1)
      let uniqueRatio (index : Nat) : Float := (blocks index).metrics.uniqueRatio
      (opening < ending ∧ start.Lasts blocks opening ending) ∧
      (ending ≤ count ∧ hasFlag (start.flagsAt blocks ending) anomalyEnd = true ∧
          segment.endBlock = some ending ∧ 2 ≤ segment.probeSuccesses ∨
        ending = count + 1 ∧ segment.endBlock = some count) ∧
      (∃ reason, (start.verdictAt blocks opening).route.reason = some reason ∧ segment.reasonCode = reason.name) ∧
      (segment.minRatio = (others.map ratio).foldl floatMin (ratio opening) ∧
        (∃ index, opening ≤ index ∧ index < ending ∧ ratio index = segment.minRatio) ∧
        ∀ index, opening ≤ index → index < ending → ¬ratio index < segment.minRatio) ∧
      (segment.maxUniqueRatio = (others.map uniqueRatio).foldl floatMax (uniqueRatio opening) ∧
        (∃ index, opening ≤ index ∧ index < ending ∧ uniqueRatio index = segment.maxUniqueRatio) ∧
        ∀ index, opening ≤ index → index < ending → ¬segment.maxUniqueRatio < uniqueRatio index) ∧
      segment.probeAttempts = (others.countP fun index => interval ∣ index) ∧
      segment.probeSuccesses = (others.countP fun index =>
        interval ∣ index ∧ (start.verdictAt blocks index).route.reason ≠ some .entropyGate ∧
          baseline.ratio - 10.0 * floatMax baseline.deviation 0.1 ≤ (blocks index).probeRatio) ∧
      segment.probeSuccesses ≤ segment.probeAttempts := by
  intro start segment hmem
  have hprobes : start.probeInterval = interval := Nat.max_eq_left hinterval
  have hkept : start.Kept blocks count := kept_after (nextIndex_after blocks runId interval) rfl rfl count
  -- whichever block comes first after the segment, the segment covers those before it
  obtain ⟨ending, hbehind, hlasts, hends, hcovers⟩ : ∃ ending, segment.startBlock < ending ∧
      start.Lasts blocks segment.startBlock ending ∧
      (ending ≤ count ∧ hasFlag (start.flagsAt blocks ending) anomalyEnd = true ∧
          segment.endBlock = some ending ∧ 2 ≤ segment.probeSuccesses ∨
        ending = count + 1 ∧ segment.endBlock = some count) ∧
      segment.Covers start blocks (ending - 1) := by
    rcases hkept.report (nextIndex_after blocks runId interval) hmem with
      ⟨ending, hending, hfiled⟩ | ⟨streak, current, hgrowing, rfl⟩
    · exact ⟨ending, hfiled.behind, hfiled.lasts,
        .inl ⟨hending, hfiled.ends, hfiled.endBlock, hfiled.successes⟩, hfiled.covers⟩
    · exact ⟨count + 1, Nat.lt_succ_of_le hgrowing.begun, hgrowing.lasts, .inr ⟨rfl, rfl⟩, hgrowing.covers.close _⟩
  have hbegun : segment.startBlock ≤ ending - 1 := Nat.le_sub_one_of_lt hbehind
  have hbefore {index : Nat} : index ≤ ending - 1 ↔ index < ending := Nat.le_sub_one_iff_lt (by omega)
  have hleast := hcovers.minRatio_least hbegun
  have hgreatest := hcovers.maxUniqueRatio_greatest hbegun
  have hattempts := hcovers.probeAttempts
  have hsuccesses := hcovers.probeSuccesses
  simp only [hbefore] at hleast hgreatest
  rw [hprobes] at hattempts
  simp only [hprobes] at hsuccesses
  exact ⟨ending, ⟨hbehind, hlasts⟩, hends, hcovers.reasonCode, ⟨hcovers.minRatio, hleast⟩,
    ⟨hcovers.maxUniqueRatio, hgreatest⟩, hattempts, hsuccesses, hcovers.successes_le⟩

/-- The quarantine of the sample column lasts from block 2 to block 10. Of its probes the first finds noise, the next
    two succeed, and the one that ends it is counted no more. -/
theorem sampleColumn_segment :
    ∃ segment ∈ ((Monitor.new "run" 2).after sampleColumn 12).report.1.segments,
      segment.startBlock = 2 ∧ segment.endBlock = some 10 ∧ segment.reasonCode = "RATIO_DROP" ∧
        segment.probeAttempts = 3 ∧ segment.probeSuccesses = 2 := by
  obtain ⟨segment, hmem, hopening, hclosed⟩ :
      ∃ segment ∈ ((Monitor.new "run" 2).after sampleColumn 12).report.1.segments,
        segment.startBlock = 2 ∧ segment.endBlock = some 10 := by
    decide +kernel
  have hcontents := segment_contents "run" 2 (by decide) sampleColumn 12
  obtain ⟨ending, -, hends, ⟨reason, hreason, hcode⟩, -, -, hattempts, hsuccesses, -⟩ := hcontents segment hmem
  have hending : ending = 10 := by
    rcases hends with ⟨-, -, hend, -⟩ | ⟨-, hend⟩ <;> rw [hclosed] at hend <;> cases hend
    rfl
  rw [hopening] at hreason hattempts hsuccesses
  rw [hending] at hattempts hsuccesses
  have hdrop : ((Monitor.new "run" 2).verdictAt sampleColumn 2).route.reason = some .ratioDrop := by decide +kernel
  refine ⟨segment, hmem, hopening, hclosed, ?_, ?_, ?_⟩
  · rw [hdrop] at hreason
    cases hreason
    exact hcode
  · rw [hattempts]
    decide
  · rw [hsuccesses]
    decide +kernel

end Monitor

end SnapshotArchive

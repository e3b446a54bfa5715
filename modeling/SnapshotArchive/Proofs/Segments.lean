import SnapshotArchive.Proofs.Anomalies
import SnapshotArchive.Proofs.HealthFlags

/-!
# `Proofs.Segments` — the segments of a report are the quarantines in the flags

A monitor keeps its segments for the report at the end of a session, and it flags the blocks of its column as they
come. The two tell the same story: the segments begin at the blocks that are flagged as a start and end at those that
are flagged as an end, in the same order, and each ends before the next one begins. Only the last may still be open,
exactly while there is a quarantine, and the report closes it at the last block.

What a block does to the segments is said once, in `Monitor.Filing`. The invariant `Monitor.Recorded` compares the
segments so far with the flags so far.

## Contents
- **Positions.** `positionsOf`, where a flag stands in a column.
- **One block.** `Monitor.Filing` and `Monitor.filing`, the four things that can happen to the segments.
- **Invariant.** `Monitor.Recorded`; `Recorded.observe`, one lemma for each of the four, and `Recorded.emits`.
- **Reports.** `Report.Tells`, and `Recorded.report`: what the report of a column says.
-/

namespace SnapshotArchive

/-! ## Positions -/

/-- The positions of the blocks that carry a flag. Blocks are counted from 1. -/
def positionsOf (flag : UInt8) (flags : List UInt8) : List Nat :=
  ((flags.zipIdx 1).filter fun each => hasFlag each.1 flag).map (·.2)

theorem positionsOf_concat (flag : UInt8) (flags : List UInt8) (last : UInt8) :
    positionsOf flag (flags ++ [last]) =
      positionsOf flag flags ++ if hasFlag last flag then [flags.length + 1] else [] := by
  unfold positionsOf
  rw [List.zipIdx_append, List.filter_append, List.map_append, Nat.add_comm 1]
  cases hflag : hasFlag last flag <;> simp [hflag]

theorem positionsOf_concat_of_hasFlag {flag last : UInt8} (flags : List UInt8) (h : hasFlag last flag = true) :
    positionsOf flag (flags ++ [last]) = positionsOf flag flags ++ [flags.length + 1] := by
  rw [positionsOf_concat, h, if_pos rfl]

theorem positionsOf_concat_of_not_hasFlag {flag last : UInt8} (flags : List UInt8) (h : hasFlag last flag = false) :
    positionsOf flag (flags ++ [last]) = positionsOf flag flags := by
  rw [positionsOf_concat, h, if_neg nofun, List.append_nil]

/-! ## One block -/

/-- The segment has ended before the other begins. -/
def Segment.Before (earlier later : Segment) : Prop :=
  ∃ ending, earlier.endBlock = some ending ∧ ending < later.startBlock

/-- Only where a segment begins matters for the segments before it. -/
theorem Segment.pairwise_before_concat {segments : List Segment} {last other : Segment}
    (h : (segments ++ [last]).Pairwise Segment.Before) (hstart : other.startBlock = last.startBlock) :
    (segments ++ [other]).Pairwise Segment.Before := by
  obtain ⟨hsegments, -, hlast⟩ := List.pairwise_append.mp h
  refine List.pairwise_append.mpr ⟨hsegments, List.pairwise_singleton _ _, ?_⟩
  intro earlier hmem later hlater
  obtain rfl := List.mem_singleton.mp hlater
  obtain ⟨ending, hend, hbefore⟩ := hlast earlier hmem last List.mem_cons_self
  exact ⟨ending, hend, hstart ▸ hbefore⟩

namespace Monitor

variable {monitor target : Monitor} {block : Sighting}

theorem closed_moved (monitor : Monitor) (block : Sighting) :
    (monitor.moved block).closed = (monitor.stepOf block).2.closed := by
  unfold moved
  split <;> rfl

variable (monitor block) in
/-- The segment that the next block would open. -/
def newSegment : Segment :=
  Segment.start (monitor.closed.length + 1) monitor.nextIndex
    (((monitor.routeOf block).reason.map Reason.name).getD "UNKNOWN")
    (payloadRatio block.input block.output) block.metrics.uniqueRatio

variable (monitor block) in
/-- The open segment with one more quarantined block. -/
def extended (segment : Segment) : Segment :=
  segment.extend (monitor.isProbe monitor.nextIndex) (monitor.isGoodProbe (monitor.outcomeOf block))
    (payloadRatio block.input block.output) block.metrics.uniqueRatio

variable (monitor block) in
/-- What a block does to the segments. -/
inductive Filing : Prop where
  /-- Nothing: the column is healthy. -/
  | passes
      (before : monitor.phase = .normal)
      (flags : (monitor.observe block).1.flags = 0)
      (closed : (monitor.observe block).2.closed = monitor.closed)
      (after : (monitor.observe block).2.phase = .normal)
  /-- It opens a segment. -/
  | opened (reference : Float)
      (before : monitor.phase = .normal)
      (flags : (monitor.observe block).1.flags = anomalyStart ||| quarantined)
      (closed : (monitor.observe block).2.closed = monitor.closed)
      (after : (monitor.observe block).2.phase
        = .quarantined reference 0 (some (monitor.newSegment block)))
  /-- It extends the open segment. -/
  | continued (reference : Float) (streak next : Nat) (segment : Option Segment)
      (before : monitor.phase = .quarantined reference streak segment)
      (flags : (monitor.observe block).1.flags = anomalyMid ||| quarantined)
      (closed : (monitor.observe block).2.closed = monitor.closed)
      (after : (monitor.observe block).2.phase
        = .quarantined reference next (segment.map (monitor.extended block)))
  /-- It closes the open segment. -/
  | ended (reference : Float) (streak : Nat) (segment : Option Segment)
      (before : monitor.phase = .quarantined reference streak segment)
      (flags : (monitor.observe block).1.flags = anomalyEnd)
      (closed : (monitor.observe block).2.closed
        = monitor.closed ++ segment.toList.map (·.close monitor.nextIndex))
      (after : (monitor.observe block).2.phase = .normal)

variable (monitor block) in
/-- **Every block does one of the four things.** -/
theorem filing : monitor.Filing block := by
  have hclosed : (monitor.observe block).2.closed = (monitor.stepOf block).2.closed :=
    monitor.closed_moved block
  have hafter := monitor.phase_observe block
  have hflags := monitor.flags_observe block
  cases hphase : monitor.phase with
  | normal =>
      cases hpath : (monitor.routeOf block).path with
      | core =>
          rw [stepOf_normal_core hphase hpath] at hclosed hafter hflags
          exact .passes hphase hflags hclosed (hafter.trans hphase)
      | quarantine =>
          have hstep : monitor.stepOf block = (anomalyStart ||| quarantined,
              { monitor with
                phase := .quarantined monitor.baseline.ratio 0 (some (monitor.newSegment block)) }) := by
            have hpath : (monitor.outcomeOf block).route.path = .quarantine := hpath
            unfold stepOf step
            rw [hphase, hpath]
            rfl
          rw [hstep] at hclosed hafter hflags
          exact .opened _ hphase hflags hclosed hafter
  | quarantined reference streak segment =>
      cases hpath : (monitor.routeOf block).path with
      | core =>
          have hstep : monitor.stepOf block = (anomalyEnd,
              { monitor with
                phase := .normal
                closed := monitor.closed ++ segment.toList.map (·.close monitor.nextIndex) }) := by
            have hpath : (monitor.outcomeOf block).route.path = .core := hpath
            unfold stepOf step
            rw [hphase, hpath]
            rfl
          rw [hstep] at hclosed hafter hflags
          exact .ended _ _ _ hphase hflags hclosed hafter
      | quarantine =>
          obtain ⟨next, hstep⟩ : ∃ next, monitor.stepOf block = (anomalyMid ||| quarantined,
              { monitor with
                phase := .quarantined reference next (segment.map (monitor.extended block)) }) := by
            have hpath : (monitor.outcomeOf block).route.path = .quarantine := hpath
            unfold stepOf step
            rw [hphase, hpath]
            exact ⟨_, rfl⟩
          rw [hstep] at hclosed hafter hflags
          exact .continued _ _ _ _ hphase hflags hclosed hafter

/-! ## Invariant -/

/-- The segments of a monitor and the flags of its column so far tell the same story. -/
structure Recorded (flags : List UInt8) (monitor : Monitor) : Prop where
  total : monitor.totalBlocks = flags.length
  last : monitor.lastIndex = flags.length
  /-- There is an open segment exactly while there is a quarantine. -/
  isOpen : monitor.phase = .normal ∨
    ∃ reference streak segment, monitor.phase = .quarantined reference streak (some segment)
  starts : (monitor.closed ++ monitor.phase.segments).map (·.startBlock) = positionsOf anomalyStart flags
  ends : monitor.closed.map (·.endBlock) = (positionsOf anomalyEnd flags).map some
  apart : (monitor.closed ++ monitor.phase.segments).Pairwise Segment.Before
  /-- A closed segment begins no later than it ends, -/
  within : ∀ segment ∈ monitor.closed,
    ∃ ending, segment.endBlock = some ending ∧ segment.startBlock ≤ ending ∧ ending ≤ flags.length
  /-- and the open one has begun. -/
  begun : ∀ segment ∈ monitor.phase.segments, segment.startBlock ≤ flags.length

theorem recorded_new (runId : String) (interval : Nat) : Recorded [] (new runId interval) where
  total := rfl
  last := rfl
  isOpen := .inl rfl
  starts := rfl
  ends := rfl
  apart := List.Pairwise.nil
  within := fun _ hmem => absurd hmem List.not_mem_nil
  begun := fun _ hmem => absurd hmem List.not_mem_nil

namespace Recorded

variable {flags : List UInt8}

/-- The end of a segment stays where it is. -/
theorem within_succ (h : Recorded flags monitor) :
    ∀ segment ∈ monitor.closed,
      ∃ ending, segment.endBlock = some ending ∧ segment.startBlock ≤ ending ∧ ending ≤ flags.length + 1 := by
  intro segment hmem
  obtain ⟨ending, hend, hforward, hbound⟩ := h.within segment hmem
  exact ⟨ending, hend, hforward, Nat.le_succ_of_le hbound⟩

/-- In quarantine there is one open segment, behind all closed ones. -/
theorem of_quarantined (h : Recorded flags monitor) {reference : Float} {streak : Nat} {segment : Option Segment}
    (hphase : monitor.phase = .quarantined reference streak segment) :
    ∃ current, segment = some current ∧ current.startBlock ≤ flags.length ∧
      (monitor.closed ++ [current]).map (·.startBlock) = positionsOf anomalyStart flags ∧
      (monitor.closed ++ [current]).Pairwise Segment.Before := by
  obtain ⟨-, -, hopen, hstarts, -, hapart, -, hbegun⟩ := h
  rcases hopen with hnormal | ⟨_, _, current, hcurrent⟩
  · rw [hphase] at hnormal
    cases hnormal
  · rw [hphase] at hcurrent hstarts hapart hbegun
    cases hcurrent
    exact ⟨current, rfl, hbegun current List.mem_cons_self, hstarts, hapart⟩

/-- In a healthy column all segments are closed. -/
theorem of_normal (h : Recorded flags monitor) (hphase : monitor.phase = .normal) :
    monitor.closed.map (·.startBlock) = positionsOf anomalyStart flags ∧
      monitor.closed.Pairwise Segment.Before := by
  have hstarts := h.starts
  have hapart := h.apart
  rw [hphase, show Phase.normal.segments = [] from rfl, List.append_nil] at hstarts hapart
  exact ⟨hstarts, hapart⟩

/-- The block is counted. -/
theorem counted (h : Recorded flags monitor) (block : Sighting) (flag : UInt8) :
    (monitor.observe block).2.totalBlocks = (flags ++ [flag]).length ∧
      (monitor.observe block).2.lastIndex = (flags ++ [flag]).length := by
  have hnext : monitor.nextIndex = (flags ++ [flag]).length := by
    rw [List.length_append]
    exact congrArg (· + 1) h.total
  exact ⟨hnext, hnext⟩

/-- A block that closes no segment is not flagged as an end. -/
theorem closes_none (h : Recorded flags monitor) {after : Monitor} (hclosed : after.closed = monitor.closed)
    (flag : UInt8) (hflag : hasFlag flag anomalyEnd = false) :
    after.closed.map (·.endBlock) = (positionsOf anomalyEnd (flags ++ [flag])).map some ∧
      ∀ segment ∈ after.closed,
        ∃ ending, segment.endBlock = some ending ∧ segment.startBlock ≤ ending ∧ ending ≤ (flags ++ [flag]).length := by
  rw [hclosed, positionsOf_concat_of_not_hasFlag _ hflag, List.length_append]
  exact ⟨h.ends, h.within_succ⟩

section Cases

/-! The four things that a block can do to the segments, one by one. -/

theorem passes (h : Recorded flags monitor) (hbefore : monitor.phase = .normal)
    (hflags : (monitor.observe block).1.flags = 0)
    (hclosed : (monitor.observe block).2.closed = monitor.closed)
    (hafter : (monitor.observe block).2.phase = .normal) :
    Recorded (flags ++ [(monitor.observe block).1.flags]) (monitor.observe block).2 := by
  obtain ⟨hstarts, hapart⟩ := h.of_normal hbefore
  rw [hflags]
  obtain ⟨htotal, hlast⟩ := h.counted block 0
  obtain ⟨hends, hwithin⟩ := h.closes_none hclosed 0 (by decide)
  refine ⟨htotal, hlast, .inl hafter, ?_, hends, ?_, hwithin, ?_⟩
  · rw [hclosed, hafter, positionsOf_concat_of_not_hasFlag _ (by decide), ← hstarts]
    exact congrArg _ (List.append_nil _)
  · rw [hclosed, hafter]
    exact (List.append_nil monitor.closed).symm ▸ hapart
  · rw [hafter]
    exact fun _ hmem => absurd hmem List.not_mem_nil

theorem opened (h : Recorded flags monitor) {reference : Float} (hbefore : monitor.phase = .normal)
    (hflags : (monitor.observe block).1.flags = anomalyStart ||| quarantined)
    (hclosed : (monitor.observe block).2.closed = monitor.closed)
    (hafter : (monitor.observe block).2.phase = .quarantined reference 0 (some (monitor.newSegment block))) :
    Recorded (flags ++ [(monitor.observe block).1.flags]) (monitor.observe block).2 := by
  obtain ⟨hstarts, hapart⟩ := h.of_normal hbefore
  rw [hflags]
  obtain ⟨htotal, hlast⟩ := h.counted block (anomalyStart ||| quarantined)
  obtain ⟨hends, hwithin⟩ := h.closes_none hclosed (anomalyStart ||| quarantined) (by decide)
  have hstart : (monitor.newSegment block).startBlock = flags.length + 1 := congrArg (· + 1) h.total
  refine ⟨htotal, hlast, .inr ⟨_, _, _, hafter⟩, ?_, hends, ?_, hwithin, ?_⟩
  · rw [hclosed, hafter, positionsOf_concat_of_hasFlag _ (by decide), List.map_append, hstarts, ← hstart]
    rfl
  · -- all segments so far have ended before this block
    rw [hclosed, hafter]
    refine List.pairwise_append.mpr ⟨hapart, List.pairwise_singleton _ _, ?_⟩
    intro earlier hmem later hlater
    obtain rfl := List.mem_singleton.mp hlater
    obtain ⟨ending, hend, -, hbound⟩ := h.within earlier hmem
    exact ⟨ending, hend, by omega⟩
  · rw [hafter, List.length_append]
    intro segment hmem
    obtain rfl := List.mem_singleton.mp hmem
    exact Nat.le_of_eq hstart

/-- The open segment changes, but begins where it did. -/
theorem continued (h : Recorded flags monitor) {reference : Float} {streak next : Nat} {segment : Option Segment}
    (hbefore : monitor.phase = .quarantined reference streak segment)
    (hflags : (monitor.observe block).1.flags = anomalyMid ||| quarantined)
    (hclosed : (monitor.observe block).2.closed = monitor.closed)
    (hafter : (monitor.observe block).2.phase = .quarantined reference next (segment.map (monitor.extended block))) :
    Recorded (flags ++ [(monitor.observe block).1.flags]) (monitor.observe block).2 := by
  obtain ⟨current, rfl, hbegun, hstarts, hapart⟩ := h.of_quarantined hbefore
  rw [hflags]
  obtain ⟨htotal, hlast⟩ := h.counted block (anomalyMid ||| quarantined)
  obtain ⟨hends, hwithin⟩ := h.closes_none hclosed (anomalyMid ||| quarantined) (by decide)
  refine ⟨htotal, hlast, .inr ⟨_, _, _, hafter⟩, ?_, hends, ?_, hwithin, ?_⟩
  · rw [hclosed, hafter, positionsOf_concat_of_not_hasFlag _ (by decide), ← hstarts, List.map_append, List.map_append]
    rfl
  · rw [hclosed, hafter]
    exact Segment.pairwise_before_concat hapart rfl
  · rw [hafter, List.length_append]
    intro segment hmem
    obtain rfl := List.mem_singleton.mp hmem
    exact Nat.le_succ_of_le hbegun

/-- The open segment becomes the last of the closed ones. -/
theorem ended (h : Recorded flags monitor) {reference : Float} {streak : Nat} {segment : Option Segment}
    (hbefore : monitor.phase = .quarantined reference streak segment)
    (hflags : (monitor.observe block).1.flags = anomalyEnd)
    (hclosed : (monitor.observe block).2.closed
      = monitor.closed ++ segment.toList.map (·.close monitor.nextIndex))
    (hafter : (monitor.observe block).2.phase = .normal) :
    Recorded (flags ++ [(monitor.observe block).1.flags]) (monitor.observe block).2 := by
  obtain ⟨current, rfl, hbegun, hstarts, hapart⟩ := h.of_quarantined hbefore
  rw [hflags]
  obtain ⟨htotal, hlast⟩ := h.counted block anomalyEnd
  have hnext : monitor.nextIndex = flags.length + 1 := congrArg (· + 1) h.total
  have hall : (monitor.observe block).2.closed ++ (monitor.observe block).2.phase.segments
      = monitor.closed ++ [current.close monitor.nextIndex] := by
    rw [hclosed, hafter]
    exact List.append_nil _
  refine ⟨htotal, hlast, .inl hafter, ?_, ?_, ?_, ?_, ?_⟩
  · rw [hall, positionsOf_concat_of_not_hasFlag _ (by decide), ← hstarts, List.map_append, List.map_append]
    rfl
  · rw [hclosed, positionsOf_concat_of_hasFlag _ (by decide), List.map_append, List.map_append, h.ends, ← hnext]
    rfl
  · rw [hall]
    exact Segment.pairwise_before_concat hapart rfl
  · rw [hclosed, List.length_append]
    intro segment hmem
    rcases List.mem_append.mp hmem with hmem | hmem
    · exact h.within_succ segment hmem
    · obtain rfl := List.mem_singleton.mp hmem
      exact ⟨monitor.nextIndex, rfl, Nat.le_trans hbegun (Nat.le_of_lt (by omega)), Nat.le_of_eq hnext⟩
  · rw [hafter]
    exact fun _ hmem => absurd hmem List.not_mem_nil

end Cases

/-- **A block keeps the invariant**, with its flags put behind the others. -/
theorem observe (h : Recorded flags monitor) (block : Sighting) :
    Recorded (flags ++ [(monitor.observe block).1.flags]) (monitor.observe block).2 := by
  cases monitor.filing block with
  | passes before hflags closed after => exact h.passes before hflags closed after
  | opened reference before hflags closed after => exact h.opened before hflags closed after
  | continued reference streak next segment before hflags closed after => exact h.continued before hflags closed after
  | ended reference streak segment before hflags closed after => exact h.ended before hflags closed after

/-- **A whole column keeps the invariant.** -/
theorem emits (h : Recorded flags monitor) {more : List UInt8} (hemits : monitor.Emits more target) :
    Recorded (flags ++ more) target := by
  induction hemits generalizing flags with
  | nil => exact (List.append_nil flags).symm ▸ h
  | cons block _ ih =>
      have hrest := ih (h.observe block)
      rwa [List.append_assoc] at hrest

end Recorded

end Monitor

/-! ## Reports -/

/-- The segments of a report are the quarantines that the flags of a column tell of. -/
structure Report.Tells (report : Report) (flags : List UInt8) : Prop where
  /-- The segments begin where the quarantines do, -/
  starts : report.segments.map (·.startBlock) = positionsOf anomalyStart flags
  /-- and end where these do. One that has not ended is closed at the last block. -/
  ends : report.segments.map (·.endBlock) =
    (positionsOf anomalyEnd flags ++
      if (positionsOf anomalyEnd flags).length < (positionsOf anomalyStart flags).length then [flags.length]
      else []).map some
  /-- At most the last quarantine has not ended. -/
  unended : (positionsOf anomalyStart flags).length ≤ (positionsOf anomalyEnd flags).length + 1
  apart : report.segments.Pairwise Segment.Before
  within : ∀ segment ∈ report.segments,
    ∃ ending, segment.endBlock = some ending ∧ segment.startBlock ≤ ending ∧ ending ≤ flags.length

namespace Monitor

variable {monitor : Monitor} {flags : List UInt8}

theorem segments_report (monitor : Monitor) :
    monitor.report.1.segments = monitor.closed ++ monitor.phase.segments.map (·.close monitor.lastIndex) :=
  congrArg Monitor.closed monitor.report_settles

/-- **What the report of a column says.** -/
theorem Recorded.report (h : Recorded flags monitor) : monitor.report.1.Tells flags := by
  -- as many segments are closed as there are ends, so that counting the flags tells whether one is open
  have hends := congrArg List.length h.ends
  rw [List.length_map, List.length_map] at hends
  rcases h.isOpen with hphase | ⟨reference, streak, current, hphase⟩
  · obtain ⟨hstarts, hapart⟩ := h.of_normal hphase
    have hlength := congrArg List.length hstarts
    rw [List.length_map] at hlength
    have hsegments : monitor.report.1.segments = monitor.closed := by
      rw [segments_report, hphase]
      exact List.append_nil _
    refine ⟨?_, ?_, by omega, ?_, ?_⟩
    · rw [hsegments, hstarts]
    · rw [hsegments, if_neg (by omega), List.append_nil, h.ends]
    · rw [hsegments]
      exact hapart
    · rw [hsegments]
      exact h.within
  · -- the report closes the last segment
    obtain ⟨_, hcurrent, hbegun, hstarts, hapart⟩ := h.of_quarantined hphase
    cases hcurrent
    have hlength := congrArg List.length hstarts
    rw [List.length_map, List.length_append, List.length_singleton] at hlength
    have hsegments : monitor.report.1.segments = monitor.closed ++ [current.close flags.length] := by
      rw [segments_report, hphase, h.last]
      rfl
    refine ⟨?_, ?_, by omega, ?_, ?_⟩
    · rw [hsegments, ← hstarts, List.map_append, List.map_append]
      rfl
    · rw [hsegments, if_pos (by omega), List.map_append, List.map_append, h.ends]
      rfl
    · rw [hsegments]
      exact Segment.pairwise_before_concat hapart rfl
    · rw [hsegments]
      intro segment hmem
      rcases List.mem_append.mp hmem with hmem | hmem
      · exact h.within segment hmem
      · obtain rfl := List.mem_singleton.mp hmem
        exact ⟨flags.length, rfl, hbegun, Nat.le_refl _⟩

/-- **The report of a column tells of its flags**, whatever blocks a new monitor has taken in. -/
theorem report_tells {runId : String} {interval : Nat} (h : (new runId interval).Emits flags monitor) :
    monitor.report.1.Tells flags := by
  have hrecorded := (recorded_new runId interval).emits h
  rw [List.nil_append] at hrecorded
  exact hrecorded.report

end Monitor

end SnapshotArchive

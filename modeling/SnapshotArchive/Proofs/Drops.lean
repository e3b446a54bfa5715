import SnapshotArchive.Proofs.Anomalies
import SnapshotArchive.Proofs.HealthFlags
import SnapshotArchive.Proofs.Replay

/-!
# `Proofs.Drops` — what a drop of the ratio says about a block, and what it does not

A session quarantines a block for a drop of its ratio when its trial falls too far below the baseline. The ratio of
the trial counts the block header as output, while the baseline is trained with the payload alone. So the trial of
every dropped block is below the baseline, header included (`Session.run_ratioDrop`). It does not follow that the
block compresses worse than those before it: for payloads of a few bytes the header decides, and the second of two
equal blocks is dropped (`Session.run_emptyTwins`).

## Contents
- **One column.** `Monitor.anomaly?_of_reason`, `Monitor.Anchored.emits`.
- **Chunks.** `Writer.trialSize`, `Writer.recordedRoute`; `Writer.trialRatio_lt_of_ratioDrop`.
- **Sessions.** `Session.blocks_of_finish`, `Session.record_of_flush`; `Session.run_ratioDrop`, and
  `Session.run_emptyTwins` for what does not follow.
-/

namespace SnapshotArchive

/-! ## One column -/

namespace Monitor

variable {monitor target : Monitor} {block : Sighting}

/-- A drop is the finding of a test in a healthy column. -/
theorem anomaly?_of_reason (h : (monitor.routeOf block).reason = some .ratioDrop) :
    monitor.anomaly? block.probeRatio block.metrics = some .ratioDrop := by
  cases hnoise : block.metrics.isHighEntropy with
  | true =>
      rw [routeOf_of_isHighEntropy hnoise] at h
      cases h
  | false =>
      cases hphase : monitor.phase with
      | normal =>
          -- the reason is the finding of the tests
          unfold routeOf route at h
          rw [hnoise, if_neg nofun, hphase] at h
          cases hanomaly : monitor.anomaly? block.probeRatio block.metrics with
          | none =>
              rw [hanomaly] at h
              cases h
          | some reason =>
              rw [hanomaly] at h
              exact h
      | quarantined reference streak segment =>
          rw [reason_of_quarantined hphase, hnoise, if_neg nofun] at h
          -- a quarantine gives reasons of its own
          split at h
          · cases h
          · split at h
            · split at h <;> cases h
            · cases h

/-- The baseline is anchored along the whole column. -/
theorem Anchored.emits (h : monitor.Anchored) {flags : List UInt8} (hemits : monitor.Emits flags target) :
    target.Anchored := by
  induction hemits with
  | nil => exact h
  | cons block _ ih => exact ih (h.observe block)

end Monitor

/-! ## Chunks -/

namespace Writer

variable {writer : Writer} {column : Column} {values : List Int64}

/-- The payload size of a chunk's trial, with the codec chosen for it. -/
def trialSize (writer : Writer) (column : Column) (values : List Int64) : Nat :=
  (writer.context.encode column
    (writer.context.chooseCodec column values (Metrics.ofValues values)) values).1.length

/-- The route of a chunk as it is recorded, if its column has a monitor. -/
def recordedRoute (writer : Writer) (column : Column) (values : List Int64) : Option Route :=
  (writer.writeChunk column values).1.record.watch.map (·.route)

theorem recordedRoute_of_monitored (h : column.isMonitored = true) :
    writer.recordedRoute column values
      = some ((writer.monitor column).routeOf (writer.sighting column values)) := by
  unfold recordedRoute writeChunk
  rw [h]
  rfl

theorem recordedRoute_of_plain (h : column.isMonitored = false) : writer.recordedRoute column values = none := by
  unfold recordedRoute writeChunk
  rw [h]
  rfl

/-- **The trial of a dropped chunk is below the baseline**, header included. -/
theorem trialRatio_lt_of_ratioDrop
    (hanchored : column.isMonitored = true → (writer.monitor column).Anchored)
    (hdrop : writer.recordedRoute column values = some (.quarantine .ratioDrop)) :
    trialRatio values.length (writer.trialSize column values) < (writer.monitor column).baseline.ratio := by
  cases hmonitored : column.isMonitored with
  | false =>
      rw [recordedRoute_of_plain hmonitored] at hdrop
      cases hdrop
  | true =>
      rw [recordedRoute_of_monitored hmonitored] at hdrop
      have hreason : ((writer.monitor column).routeOf (writer.sighting column values)).reason
          = some .ratioDrop := by
        rw [Option.some.inj hdrop]
        rfl
      have hbelow := (hanchored hmonitored).lt_of_anomaly? (Monitor.anomaly?_of_reason hreason)
      exact hbelow

end Writer

/-! ## Sessions -/

namespace Session

/-- Ending a session leaves the records of its last flush. -/
theorem blocks_of_finalize (session : Session) : session.finalize.2.telemetry.blocks = session.telemetry.blocks := by
  unfold finalize
  by_cases hclosed : session.closed = true
  · rw [if_pos hclosed]
  · rw [if_neg hclosed]
    by_cases hpending : session.pending.size ≠ 0
    · rw [if_pos hpending]
    · rw [if_neg hpending]
      cases session.sink with
      | none => rfl
      | some sink =>
          simp only
          split <;> rfl

/-- Finishing enters the records that a flush enters, whether or not it succeeds. -/
theorem blocks_of_finish {session : Session} (hopen : session.closed = false) :
    session.finish.2.telemetry.blocks = session.flush.2.telemetry.blocks := by
  obtain ⟨flushed, -, -, -, -, hfinish⟩ := finish_of_isOpen hopen
  rw [hfinish]
  exact session.flush.2.blocks_of_finalize

theorem blocks_of_flush {session : Session} (hopen : session.closed = false) :
    session.flush.2.telemetry.blocks
      = (session.writer.writeChunks session.pendingChunks).1.map Written.record := by
  rw [flush_of_isOpen hopen]
  rfl

theorem length_blocks_of_flush {session : Session} (hopen : session.closed = false) :
    session.flush.2.telemetry.blocks.length = session.pendingChunks.length := by
  rw [blocks_of_flush hopen, List.length_map, Writer.length_writeChunks]

/-- A flush enters the record of every chunk it writes, at the chunk's place. -/
theorem record_of_flush {session : Session} (hopen : session.closed = false)
    {earlier later : List (Column × List Int64)} {column : Column} {values : List Int64}
    (hchunks : session.pendingChunks = earlier ++ (column, values) :: later) :
    session.flush.2.telemetry.blocks[earlier.length]?
      = some (((session.writer.writeChunks earlier).2.writeChunk column values).1.record) := by
  have hlength : ((session.writer.writeChunks earlier).1.map Written.record).length = earlier.length := by
    rw [List.length_map, Writer.length_writeChunks]
  rw [blocks_of_flush hopen, hchunks, Writer.writeChunks_append, Writer.writeChunks_cons, List.map_append,
    List.getElem?_append_right (Nat.le_of_eq hlength), hlength, Nat.sub_self]
  rfl

/-- **What a drop of the ratio says.** Under every valid configuration, for every sink and every sequence of operations
    that leaves the session open: finishing enters the records that a flush enters, one for each chunk. If a chunk is
    quarantined there for a drop of its ratio, then the ratio of its trial, with the block header counted as output, is
    below the baseline from before this chunk. -/
theorem run_ratioDrop (config : Config) (hvalid : config.validate = .ok ()) (sink : Option Sink) (calls : List Call) :
    ∃ start, Session.start config sink = .ok start ∧
      let session := (start.run calls).2
      session.closed = false →
        session.finish.2.telemetry.blocks = session.flush.2.telemetry.blocks ∧
          session.flush.2.telemetry.blocks.length = session.pendingChunks.length ∧
          ∀ earlier column values later, session.pendingChunks = earlier ++ (column, values) :: later →
            let writer := (session.writer.writeChunks earlier).2
            session.flush.2.telemetry.blocks[earlier.length]? = some (writer.writeChunk column values).1.record ∧
              (writer.recordedRoute column values = some (.quarantine .ratioDrop) →
                Writer.trialRatio values.length (writer.trialSize column values)
                  < (writer.monitor column).baseline.ratio) := by
  refine ⟨fresh config sink, start_of_valid hvalid sink, ?_⟩
  intro session hopen
  refine ⟨blocks_of_finish hopen, length_blocks_of_flush hopen, ?_⟩
  intro earlier column values later hchunks writer
  refine ⟨record_of_flush hopen hchunks, fun hdrop => ?_⟩
  -- the writer has got to this chunk by writing the chunks of all earlier flushes and those before it
  obtain ⟨chunks, hreplays⟩ := (replays_start config sink).run calls hopen
  have hwriter : writer = ((initialWriter config).writeChunks ([] ++ chunks ++ earlier)).2 := by
    rw [Writer.writeChunks_append, ← hreplays.writer]
  have hwrites := Writer.writes_writeChunks (sound_initialWriter config) ([] ++ chunks ++ earlier) <| by
    intro chunk hmem
    rcases List.mem_append.mp hmem with hmem | hmem
    · exact hreplays.short chunk hmem
    · refine Writer.length_le_of_mem_chunksOf (show chunk ∈ session.pendingChunks from ?_)
      rw [hchunks]
      exact List.mem_append_left _ hmem
  rw [← hwriter] at hwrites
  refine Writer.trialRatio_lt_of_ratioDrop (fun hmonitored => ?_) hdrop
  have hnew : ((initialWriter config).monitor column).Anchored := by
    cases column <;> cases hmonitored <;> exact Monitor.anchored_new _ _
  exact hnew.emits (hwrites.emitted column hmonitored)

/-- Two snapshots without items. -/
def emptyTwins : List Call := [.add (.ofEntries 0 []), .add (.ofEntries 0 [])]

/-- Twins after twins: the second block of timestamps is dropped, and its trial, charged with the header, is below the
    baseline. -/
theorem run_emptyTwins_below :
    ∃ start, Session.start { runId := "run" } none = .ok start ∧
      let session := (start.run (emptyTwins ++ [.flush] ++ emptyTwins)).2
      session.closed = false ∧
        session.writer.recordedRoute .time [0, 0] = some (.quarantine .ratioDrop) ∧
        session.flush.2.telemetry.blocks[0]? = some (session.writer.writeChunk .time [0, 0]).1.record ∧
        Writer.trialRatio 2 (session.writer.trialSize .time [0, 0]) < session.writer.time.baseline.ratio := by
  obtain ⟨start, hstart, hdrops⟩ := run_ratioDrop { runId := "run" } rfl none (emptyTwins ++ [.flush] ++ emptyTwins)
  have hconcrete : start = fresh { runId := "run" } none := (Except.ok.inj hstart).symm
  have hopen : (start.run (emptyTwins ++ [.flush] ++ emptyTwins)).2.closed = false := by
    rw [hconcrete]
    decide +kernel
  have hdrop : (start.run (emptyTwins ++ [.flush] ++ emptyTwins)).2.writer.recordedRoute .time [0, 0]
      = some (.quarantine .ratioDrop) := by
    rw [hconcrete]
    decide +kernel
  have hchunks : (start.run (emptyTwins ++ [.flush] ++ emptyTwins)).2.pendingChunks
      = [] ++ (.time, [0, 0]) :: [(.snapshotLen, [0, 0])] := by
    rw [hconcrete]
    decide +kernel
  obtain ⟨-, -, hblocks⟩ := hdrops hopen
  obtain ⟨hrecord, hbelow⟩ := hblocks [] .time [0, 0] _ hchunks
  exact ⟨start, hstart, hopen, hdrop, hrecord, hbelow hdrop⟩

/-- **A block that compresses exactly as well as the one before it is dropped.** Both flushes write the same two
    timestamps. The first block trains the baseline with its payload, and the trial of the second has a payload of the
    same size. Raw bytes per byte of the payload, it meets the baseline exactly; the monitor would not call a block of
    these sizes an anomaly. It is quarantined for a drop of the ratio all the same, because its trial has been charged
    with the header. -/
theorem run_emptyTwins :
    ∃ start, Session.start { runId := "run" } none = .ok start ∧
      let session := (start.run (emptyTwins ++ [.flush] ++ emptyTwins)).2
      let size := session.writer.trialSize .time [0, 0]
      let raw := 2 * rawValueSize
      session.pendingChunks.head? = some (.time, [0, 0]) ∧
        session.writer.recordedRoute .time [0, 0] = some (.quarantine .ratioDrop) ∧
        session.flush.2.telemetry.blocks.head?.bind (·.watch.map (·.route)) = some (.quarantine .ratioDrop) ∧
        Monitor.payloadRatio raw size = session.writer.time.baseline.ratio ∧
        ¬Monitor.payloadRatio raw size < session.writer.time.baseline.ratio ∧
        session.writer.time.wouldBeAnomaly raw size (Metrics.ofValues [0, 0]) = false := by
  refine ⟨fresh { runId := "run" } none, rfl, ?_⟩
  exact ⟨by decide +kernel, by decide +kernel, by decide +kernel, by decide +kernel, by decide +kernel,
    by decide +kernel⟩

end Session

end SnapshotArchive

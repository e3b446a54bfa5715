import SnapshotArchive.Proofs.Ending

/-!
# `Proofs.Replay` — an open session is a replay of its chunks

However snapshots have been taken in and flushed, and whatever has failed on the way, an open session stands where
its first writer would stand after writing one list of chunks: those of all flushes so far, in order. The bytes of
its replies, the state of its monitors and its totals are those of that one list (`Session.Replays`). So what holds
of every list of chunks holds of every session, and finishing well only adds the last flush, the end marker and the
reports.

## Contents
- **Chunks.** `Writer.length_writeChunks`, `Writer.writeChunks_append`.
- **Sessions.** `Session.Replays`, kept by `Replays.add` and `Replays.flush`.
- **Sequences of operations.** `Session.Replays.perform` and `Session.Replays.run`.
- **The end.** `Session.finish_eq_ok`, what finishing well yields; `encodedArchive` and `encode_eq_ok`.
-/

namespace SnapshotArchive

/-! ## Chunks -/

theorem Writer.writeChunks_cons (writer : Writer) (column : Column) (values : List Int64)
    (chunks : List (Column × List Int64)) :
    writer.writeChunks ((column, values) :: chunks) =
      ((writer.writeChunk column values).1 :: ((writer.writeChunk column values).2.writeChunks chunks).1,
        ((writer.writeChunk column values).2.writeChunks chunks).2) := rfl

/-- One block for each chunk. -/
theorem Writer.length_writeChunks (writer : Writer) (chunks : List (Column × List Int64)) :
    (writer.writeChunks chunks).1.length = chunks.length := by
  induction chunks generalizing writer with
  | nil => rfl
  | cons chunk chunks ih =>
      obtain ⟨column, values⟩ := chunk
      rw [writeChunks_cons, List.length_cons, List.length_cons, ih]

/-- Chunks are written one list after another. -/
theorem Writer.writeChunks_append (writer : Writer) (chunks others : List (Column × List Int64)) :
    writer.writeChunks (chunks ++ others) =
      ((writer.writeChunks chunks).1 ++ ((writer.writeChunks chunks).2.writeChunks others).1,
        ((writer.writeChunks chunks).2.writeChunks others).2) := by
  induction chunks generalizing writer with
  | nil => rfl
  | cons chunk chunks ih =>
      obtain ⟨column, values⟩ := chunk
      rw [List.cons_append, writeChunks_cons, writeChunks_cons, ih]
      rfl

/-! ## Sessions -/

namespace Session

variable {session : Session} {origin : Writer} {chunks : List (Column × List Int64)} {bytes : Bytes}

/-- The chunks that the next flush writes. -/
def pendingChunks (session : Session) : List (Column × List Int64) :=
  Writer.chunksOf (.ofSnapshots session.pending.toList)

/-- **The invariant of an open session**: writing the chunks has yielded its bytes, but for a file header that is
    still owed, and has left the writer as it is. The totals are those of the monitors. -/
structure Replays (session : Session) (origin : Writer) (chunks : List (Column × List Int64)) (bytes : Bytes) :
    Prop where
  isOpen : session.closed = false
  short : ∀ chunk ∈ chunks, chunk.2.length ≤ maxBlockItems
  writer : session.writer = (origin.writeChunks chunks).2
  sent : bytes ++ session.owed
    = FileHeader.print {} ++ (origin.writeChunks chunks).1.flatMap fun each => each.block.print
  tally : session.telemetry.tally = Tally.sum [session.writer.time.tally, session.writer.value.tally]

theorem replays_start (config : Config) (sink : Option Sink) :
    (fresh config sink).Replays (initialWriter config) [] [] where
  isOpen := rfl
  short := fun _ hmem => absurd hmem List.not_mem_nil
  writer := rfl
  sent := (List.append_nil _).symm
  tally := rfl

theorem Replays.add (h : session.Replays origin chunks bytes) (snapshot : Snapshot) :
    (session.add snapshot).2.Replays origin chunks bytes := by
  rw [add_of_isOpen h.isOpen]
  exact ⟨h.isOpen, h.short, h.writer, h.sent, h.tally⟩

/-- **A flush adds its chunks to the replay.** -/
theorem Replays.flush (h : session.Replays origin chunks bytes) :
    ∃ output, session.flush.1 = .ok output ∧
      session.flush.2.Replays origin (chunks ++ session.pendingChunks) (bytes ++ output) ∧
      session.flush.2.owed = [] ∧ session.flush.2.pending = #[] := by
  rw [flush_of_isOpen h.isOpen]
  refine ⟨_, rfl, ⟨h.isOpen, ?_, ?_, ?_, rfl⟩, rfl, rfl⟩
  · intro chunk hmem
    rcases List.mem_append.mp hmem with hmem | hmem
    · exact h.short chunk hmem
    · exact Writer.length_le_of_mem_chunksOf hmem
  · rw [Writer.writeChunks_append, ← h.writer]
    rfl
  · show (bytes ++ (session.owed ++ _)) ++ [] = _
    rw [List.append_nil, ← List.append_assoc, h.sent, Writer.writeChunks_append, List.flatMap_append,
      List.append_assoc, ← h.writer]
    rfl

/-! ## Sequences of operations -/

theorem Replays.perform (h : session.Replays origin chunks bytes) (call : Call)
    (hstays : (session.perform call).2.closed = false) :
    ∃ more, (session.perform call).2.Replays origin (chunks ++ more)
      (bytes ++ written [(session.perform call).1]) := by
  have hperformed := performed_of_open h.isOpen call hstays
  generalize session.perform call = reply at hperformed hstays
  cases hperformed with
  | added snapshot =>
      refine ⟨[], ?_⟩
      show (session.add snapshot).2.Replays origin (chunks ++ []) (bytes ++ [])
      rw [List.append_nil, List.append_nil]
      exact h.add snapshot
  | flushed output hreply =>
      obtain ⟨output', hreply', hreplays, -, -⟩ := h.flush
      rw [hreply] at hreply'
      cases hreply'
      refine ⟨session.pendingChunks, ?_⟩
      rw [show written [.ok output] = output from List.append_nil output]
      exact hreplays
  | refused fault =>
      refine ⟨[], ?_⟩
      show session.Replays origin (chunks ++ []) (bytes ++ [])
      rw [List.append_nil, List.append_nil]
      exact h

/-- **A session that is still open is a replay**, whatever operations there were. -/
theorem Replays.run (h : session.Replays origin chunks bytes) (calls : List Call)
    (hopen : (session.run calls).2.closed = false) :
    ∃ more, (session.run calls).2.Replays origin (chunks ++ more) (bytes ++ written (session.run calls).1) := by
  induction calls generalizing session chunks bytes with
  | nil =>
      refine ⟨[], ?_⟩
      show session.Replays origin (chunks ++ []) (bytes ++ [])
      rw [List.append_nil, List.append_nil]
      exact h
  | cons call calls ih =>
      rw [run_cons] at hopen ⊢
      obtain ⟨more, hnext⟩ := h.perform call (isOpen_of_run hopen)
      obtain ⟨rest, hrest⟩ := ih hnext hopen
      rw [List.append_assoc, List.append_assoc, ← written_append] at hrest
      exact ⟨more ++ rest, hrest⟩

/-! ## The end -/

/-- **What finishing well yields**: the bytes of a flush and the end marker, and a closed session that holds the
    reports of its monitors and has kept its totals. -/
theorem finish_eq_ok {output : Bytes} (h : session.finish.1 = .ok output) :
    session.closed = false ∧
      ∃ flushed, session.flush.1 = .ok flushed ∧ output = flushed ++ [endMarker] ∧
        session.finish.2.sidecar = some session.flush.2.sidecarOf ∧
        session.finish.2.telemetry.tally = session.flush.2.telemetry.tally := by
  cases hopen : session.closed with
  | true =>
      obtain ⟨fault, -, hperform⟩ := perform_of_closed hopen .finish
      have hfinish : session.finish = (.error fault, session) := hperform
      rw [hfinish] at h
      cases h
  | false =>
      obtain ⟨flushed, hreply, hclosed, hpending, -, hfinish⟩ := finish_of_isOpen hopen
      have hfinalize := finalize_of_flushed hclosed hpending
      refine ⟨rfl, flushed, hreply, ?_⟩
      rw [hfinish] at h ⊢
      cases hsink : session.flush.2.sink with
      | none =>
          rw [hsink] at hfinalize
          rw [hfinalize] at h ⊢
          exact ⟨(Except.ok.inj h).symm, rfl, rfl⟩
      | some sink =>
          rw [hsink] at hfinalize
          cases hanswer : sink session.flush.2.sidecarOf with
          | error fault =>
              simp only [hanswer] at hfinalize
              rw [hfinalize] at h
              cases h
          | ok done =>
              simp only [hanswer] at hfinalize
              rw [hfinalize] at h ⊢
              exact ⟨(Except.ok.inj h).symm, rfl, rfl⟩

/-! ## Whole archives -/

/-- Taking in snapshots one after another does not fail, and makes them pending. -/
theorem Replays.addAll (h : session.Replays origin chunks bytes) (snapshots : List Snapshot) :
    ∃ after, session.addAll snapshots = .ok after ∧ after.Replays origin chunks bytes ∧
      after.pending.toList = session.pending.toList ++ snapshots ∧ after.sink = session.sink := by
  induction snapshots generalizing session with
  | nil => exact ⟨session, rfl, h, (List.append_nil _).symm, rfl⟩
  | cons snapshot snapshots ih =>
      have hadd := add_of_isOpen h.isOpen snapshot
      obtain ⟨after, hafter, hreplays, hpending, hsink⟩ := ih (h.add snapshot)
      rw [hadd] at hafter hpending hsink
      refine ⟨after, ?_, hreplays, ?_, hsink⟩
      · rw [Session.addAll, hadd]
        exact hafter
      · rw [hpending, Array.toList_push, List.append_assoc]
        rfl

end Session

/-- The blocks that a new writer writes for the columns of a list of snapshots. -/
def encodedArchive (config : Config) (snapshots : List Snapshot) : Archive where
  flags := fieldwiseTimestamps
  blocks := ((Session.initialWriter config).writeColumns (.ofSnapshots snapshots)).1.map Written.block

/-- Encoding answers if the configuration is valid and the sink, if there is one, takes the sidecar. -/
theorem exists_encode {config : Config} (hvalid : config.validate = .ok ()) (snapshots : List Snapshot)
    (sink : Option Sink) (hsink : ∀ each sidecar, sink = some each → each sidecar = .ok ()) :
    ∃ bytes, encode config snapshots sink = .ok bytes := by
  obtain ⟨loaded, hload, hreplays, -, hkept⟩ := (Session.replays_start config sink).addAll snapshots
  obtain ⟨flushed, -, hopen, hpending, hsame, hfinish⟩ := Session.finish_of_isOpen hreplays.isOpen
  have hsink' : ∀ each sidecar, loaded.flush.2.sink = some each → each sidecar = .ok () := by
    rw [hsame, hkept]
    exact hsink
  have hstart := Session.start_of_valid hvalid sink
  refine ⟨flushed ++ [endMarker], bind_eq_ok.mpr ⟨_, hstart, bind_eq_ok.mpr ⟨loaded, hload, ?_⟩⟩⟩
  rw [hfinish, Session.finalize_eq_ok hopen hpending hsink']
  rfl

/-- **What encoding gives.** -/
theorem encode_eq_ok {config : Config} {snapshots : List Snapshot} {sink : Option Sink} {bytes : Bytes}
    (h : encode config snapshots sink = .ok bytes) : bytes = (encodedArchive config snapshots).print := by
  obtain ⟨session, hstart, h⟩ := bind_eq_ok.mp h
  obtain ⟨loaded, hload, hfinish⟩ := bind_eq_ok.mp h
  obtain ⟨⟨⟩, -, hstart⟩ := bind_eq_ok.mp hstart
  obtain rfl := Except.ok.inj hstart
  obtain ⟨loaded', hload', hreplays, hpending, -⟩ := (Session.replays_start config sink).addAll snapshots
  rw [hload] at hload'
  obtain rfl := Except.ok.inj hload'
  obtain ⟨-, flushed, hflush, rfl, -⟩ := Session.finish_eq_ok hfinish
  obtain ⟨output, hreply, hreplays, howed, -⟩ := hreplays.flush
  rw [hflush] at hreply
  obtain rfl := Except.ok.inj hreply
  have hsent := hreplays.sent
  rw [howed, List.nil_append, List.append_nil, List.nil_append, Session.pendingChunks, hpending] at hsent
  rw [hsent, Archive.print, encodedArchive, List.flatMap_map]
  rfl

end SnapshotArchive

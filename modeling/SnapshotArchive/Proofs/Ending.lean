import SnapshotArchive.Proofs.Session

/-!
# `Proofs.Ending` — how a session ends, and what is left if its end fails

A session ends when it finalizes, and finalizing can fail in three ways: the session has ended before, snapshots
are pending, or the sink refuses the sidecar. The first two leave the session exactly as it was. The third does
not: the sink is called at most once, so the session is closed and its context released before the sink gets to see
the sidecar, and so it stays when the sink refuses. What was written before can still be read. Finishing flushes
first and keeps the flushed bytes to itself until the sink has agreed, so a refusal there takes the pending
snapshots with it (`Session.finish_refused_loses`).

## Contents
- **Reports.** `Monitor.settled` and `Monitor.report_settles`: what a report does to its monitor.
- **Outcomes.** `Session.Finalizing` and `Session.finalizing`, the four ways to finalize; `Session.finish_of_isOpen`;
  `Session.Finishing` and `Session.finishing`, the three ways to finish.
- **Closed sessions.** `Session.perform_of_closed`, `Session.run_of_closed`.
- **Open sessions.** `Session.Performed`, the operations that leave a session open; `Session.Wrote.perform_of_open`,
  `Session.Wrote.run_of_open`: a session that is still open has lost nothing, whatever has failed on the way.
- **Main result.** `Session.Refused`, `Session.KeptBy`; `Session.failedEnd_leaves`.
-/

namespace SnapshotArchive

/-! ## Reports -/

/-- The open segment of a phase, if there is one. -/
def Phase.segments : Phase → List Segment
  | .normal => []
  | .quarantined _ _ segment => segment.toList

/-- The phase with no segment left open. -/
def Phase.settled : Phase → Phase
  | .normal => .normal
  | .quarantined reference streak _ => .quarantined reference streak none

/-- The monitor with its open segment closed at the last block. -/
def Monitor.settled (monitor : Monitor) : Monitor :=
  { monitor with
    phase := monitor.phase.settled
    closed := monitor.closed ++ monitor.phase.segments.map (·.close monitor.lastIndex) }

/-- **A report closes the open segment** and changes nothing else. -/
theorem Monitor.report_settles (monitor : Monitor) : monitor.report.2 = monitor.settled := by
  unfold report settled
  cases hphase : monitor.phase with
  | normal =>
      show monitor = { monitor with phase := .normal, closed := monitor.closed ++ [] }
      rw [List.append_nil, ← hphase]
  | quarantined reference streak segment => rfl

namespace Session

variable {session : Session}

/-! ## Outcomes -/

/-- The sidecar that a session has to offer. -/
def sidecarOf (session : Session) : Sidecar where
  fileName := Sidecar.fileNameFor session.config.runId
  runId := session.config.runId
  time := session.time.report.1
  value := session.value.report.1

/-- The session closed, with the reports of its monitors made and its context released. -/
def ended (session : Session) : Session :=
  { session with
    time := session.time.report.2
    value := session.value.report.2
    context := none
    closed := true
    holdsContext := holdsContext_closed }

/-- The session closed, with its sidecar offered to the sink. -/
def offering (session : Session) : Session :=
  { session.ended with offered := session.offered ++ [session.sidecarOf] }

/-! ### Closed sessions -/

theorem add_of_closed (h : session.closed = true) (snapshot : Snapshot) :
    session.add snapshot = (.error .addAfterFinalize, session) := if_pos h

theorem flush_of_closed (h : session.closed = true) : session.flush = (.error .flushAfterFinalize, session) := if_pos h

theorem finalize_of_closed (h : session.closed = true) : session.finalize = (.error .finalizedTwice, session) :=
  if_pos h

theorem finish_of_closed (h : session.closed = true) : session.finish = (.error .flushAfterFinalize, session) := by
  unfold finish
  rw [flush_of_closed h]

/-! ### Open sessions -/

/-- An open session with nothing pending closes, and then asks the sink. -/
theorem finalize_of_flushed (hopen : session.closed = false) (hpending : session.pending = #[]) :
    session.finalize =
      match session.sink with
      | none => (.ok (), { session.ended with sidecar := some session.sidecarOf })
      | some sink =>
          match sink session.sidecarOf with
          | .error fault => (.error fault, session.offering)
          | .ok () =>
              (.ok (), { session.offering with
                sidecar := some session.sidecarOf
                telemetry := { session.telemetry with sidecar := some session.sidecarOf.fileName } }) := by
  have hsize : ¬session.pending.size ≠ 0 := by
    rw [hpending]
    exact fun hne => hne rfl
  unfold finalize
  rw [if_neg (ne_true_of_eq_false hopen), if_neg hsize]
  rfl

/-- While snapshots are pending, finalizing changes nothing. -/
theorem finalize_of_pending (hopen : session.closed = false) (hpending : session.pending ≠ #[]) :
    session.finalize = (.error (.unflushed session.pending.size), session) := by
  have hsize : session.pending.size ≠ 0 := fun hzero => hpending (Array.eq_empty_of_size_eq_zero hzero)
  unfold finalize
  rw [if_neg (ne_true_of_eq_false hopen), if_pos hsize]

/-- What finalizing can come to. -/
inductive Finalizing (session : Session) : Except Fault Unit × Session → Prop where
  /-- The session has ended before. -/
  | again (closed : session.closed = true) : Finalizing session (.error .finalizedTwice, session)
  /-- Snapshots are pending. -/
  | early (isOpen : session.closed = false) (pending : session.pending ≠ #[]) :
      Finalizing session (.error (.unflushed session.pending.size), session)
  /-- The sink refuses the sidecar. -/
  | refused (isOpen : session.closed = false) (flushed : session.pending = #[]) (sink : Sink)
      (attached : session.sink = some sink) (fault : Fault) (refusal : sink session.sidecarOf = .error fault) :
      Finalizing session (.error fault, session.offering)
  /-- The session ends. -/
  | done (isOpen : session.closed = false) (flushed : session.pending = #[]) (after : Session)
      (closed : after.closed = true) : Finalizing session (.ok (), after)

theorem finalizing (session : Session) : session.Finalizing session.finalize := by
  cases hclosed : session.closed with
  | true =>
      rw [finalize_of_closed hclosed]
      exact .again hclosed
  | false =>
      by_cases hpending : session.pending = #[]
      · rw [finalize_of_flushed hclosed hpending]
        cases hsink : session.sink with
        | none => exact .done hclosed hpending _ rfl
        | some sink =>
            cases hreply : sink session.sidecarOf with
            | error fault =>
                simp only [hreply]
                exact .refused hclosed hpending sink hsink fault hreply
            | ok done =>
                simp only [hreply]
                exact .done hclosed hpending _ rfl
      · rw [finalize_of_pending hclosed hpending]
        exact .early hclosed hpending

/-- What finishing can come to. The session is flushed first, so nothing is pending when it finalizes. -/
inductive Finishing (session : Session) : Except Fault Bytes × Session → Prop where
  /-- The session has ended before. -/
  | again (closed : session.closed = true) : Finishing session (.error .flushAfterFinalize, session)
  /-- The sink refuses the sidecar. -/
  | refused (isOpen : session.closed = false) (sink : Sink) (attached : session.sink = some sink) (fault : Fault)
      (refusal : sink session.flush.2.sidecarOf = .error fault) :
      Finishing session (.error fault, session.flush.2.offering)
  /-- The session ends. -/
  | done (isOpen : session.closed = false) (output : Bytes) (flushed : session.flush.1 = .ok output)
      (after : Session) (closed : after.closed = true) : Finishing session (.ok (output ++ [endMarker]), after)

/-- A session that is open finishes by a flush, which succeeds and leaves nothing pending, and as it then finalizes. -/
theorem finish_of_isOpen (h : session.closed = false) :
    ∃ flushed, session.flush.1 = .ok flushed ∧ session.flush.2.closed = false ∧ session.flush.2.pending = #[] ∧
      session.flush.2.sink = session.sink ∧
      session.finish
        = (session.flush.2.finalize.1.map fun _ => flushed ++ [endMarker], session.flush.2.finalize.2) := by
  have hflush := flush_of_isOpen h
  obtain ⟨flushed, hreply⟩ : ∃ flushed, session.flush.1 = .ok flushed := ⟨_, congrArg Prod.fst hflush⟩
  have hpair : session.flush = (.ok flushed, session.flush.2) := Prod.ext hreply rfl
  refine ⟨flushed, hreply, by rw [hflush]; exact h, by rw [hflush], by rw [hflush], ?_⟩
  unfold finish
  rw [hpair]
  simp only
  rcases session.flush.2.finalize with ⟨fault | done, after⟩ <;> rfl

theorem finishing (session : Session) : session.Finishing session.finish := by
  cases hclosed : session.closed with
  | true =>
      rw [finish_of_closed hclosed]
      exact .again hclosed
  | false =>
      obtain ⟨output, houtput, hopen, hpending, hsink, hfinish⟩ := finish_of_isOpen hclosed
      have hfinalizing := session.flush.2.finalizing
      rw [hfinish]
      generalize session.flush.2.finalize = reply at hfinalizing
      cases hfinalizing with
      | again closed =>
          rw [hopen] at closed
          cases closed
      | early _ pending => exact absurd hpending pending
      | refused _ _ sink attached fault refusal => exact .refused hclosed sink (hsink ▸ attached) fault refusal
      | done _ _ after closed => exact .done hclosed output houtput after closed

/-! ### The sink -/

theorem sink_flush : session.flush.2.sink = session.sink := by
  unfold flush
  split
  · rfl
  · split <;> rfl

theorem sink_finalize : session.finalize.2.sink = session.sink := by
  by_cases hflushed : session.closed = false ∧ session.pending = #[]
  · rw [finalize_of_flushed hflushed.1 hflushed.2]
    cases hsink : session.sink with
    | none => exact hsink
    | some taker =>
        cases hanswer : taker session.sidecarOf with
        | error fault =>
            simp only [hanswer]
            exact hsink
        | ok done =>
            simp only [hanswer]
            exact hsink
  · have hfinalizing := session.finalizing
    generalize session.finalize = outcome at hfinalizing
    cases hfinalizing with
    | again | early => rfl
    | refused isOpen flushed | done isOpen flushed => exact absurd ⟨isOpen, flushed⟩ hflushed

/-- A session keeps its sink. -/
theorem sink_perform (call : Call) : (session.perform call).2.sink = session.sink := by
  cases call with
  | add snapshot =>
      show (session.add snapshot).2.sink = _
      unfold add
      split <;> rfl
  | flush => exact sink_flush
  | finalize => exact sink_finalize
  | finish =>
      show session.finish.2.sink = _
      have hflush : session.flush.2.sink = session.sink := sink_flush
      unfold finish
      generalize session.flush = outcome at hflush
      rcases outcome with ⟨fault | bytes, flushed⟩
      · exact hflush
      · have hfinalize : flushed.finalize.2.sink = flushed.sink := sink_finalize
        simp only
        generalize flushed.finalize = outcome at hfinalize
        rcases outcome with ⟨fault | done, ended⟩
        · exact hfinalize.trans hflush
        · exact hfinalize.trans hflush

/-! ## Closed sessions -/

/-- **A closed session refuses every operation** and stays as it is. -/
theorem perform_of_closed (h : session.closed = true) (call : Call) :
    ∃ fault, fault.kind = .state ∧ session.perform call = (.error fault, session) := by
  cases call with
  | add snapshot =>
      refine ⟨.addAfterFinalize, rfl, ?_⟩
      unfold perform
      simp only [add_of_closed h]
      rfl
  | flush => exact ⟨.flushAfterFinalize, rfl, flush_of_closed h⟩
  | finalize =>
      refine ⟨.finalizedTwice, rfl, ?_⟩
      unfold perform
      simp only [finalize_of_closed h]
      rfl
  | finish => exact ⟨.flushAfterFinalize, rfl, finish_of_closed h⟩

/-- Whatever is asked of a closed session, it answers with faults and stays as it is. -/
theorem run_of_closed (h : session.closed = true) (calls : List Call) :
    (∀ reply ∈ (session.run calls).1, ∃ fault, fault.kind = .state ∧ reply = .error fault) ∧
      written (session.run calls).1 = [] ∧ (session.run calls).2 = session := by
  induction calls with
  | nil => exact ⟨nofun, rfl, rfl⟩
  | cons call calls ih =>
      obtain ⟨fault, hstate, hperform⟩ := perform_of_closed h call
      obtain ⟨hreplies, hrest⟩ := ih
      rw [run_cons, hperform]
      refine ⟨?_, hrest⟩
      intro reply hmem
      rcases List.mem_cons.mp hmem with rfl | hmem
      · exact ⟨fault, hstate, rfl⟩
      · exact hreplies reply hmem

/-! ## Open sessions -/

/-- What an operation has done if it leaves the session open. -/
inductive Performed (session : Session) : Call → Except Fault Bytes × Session → Prop where
  | added (snapshot : Snapshot) : Performed session (.add snapshot) (.ok [], (session.add snapshot).2)
  | flushed (output : Bytes) (reply : session.flush.1 = .ok output) :
      Performed session .flush (.ok output, session.flush.2)
  /-- Finalizing has failed because snapshots are pending. -/
  | refused (fault : Fault) : Performed session .finalize (.error fault, session)

theorem performed_of_open (hopen : session.closed = false) (call : Call)
    (hstays : (session.perform call).2.closed = false) : session.Performed call (session.perform call) := by
  cases call with
  | add snapshot =>
      have hreply : (session.perform (.add snapshot)).1 = .ok [] := by
        show (session.add snapshot).1.map _ = _
        rw [add_of_isOpen hopen]
        rfl
      have hperform : session.perform (.add snapshot) = (.ok [], (session.add snapshot).2) :=
        Prod.ext hreply rfl
      rw [hperform]
      exact .added snapshot
  | flush =>
      obtain ⟨output, hreply⟩ : ∃ output, session.flush.1 = .ok output :=
        ⟨_, congrArg Prod.fst (flush_of_isOpen hopen)⟩
      have hperform : session.perform .flush = (.ok output, session.flush.2) := Prod.ext hreply rfl
      rw [hperform]
      exact .flushed output hreply
  | finalize =>
      have hfinalizing := session.finalizing
      have hperform : session.perform .finalize = (session.finalize.1.map fun _ => [], session.finalize.2) := rfl
      rw [hperform] at hstays ⊢
      generalize session.finalize = reply at hfinalizing hstays
      -- all outcomes but an early refusal close the session
      cases hfinalizing with
      | again closed => rw [hopen] at closed; cases closed
      | early => exact .refused _
      | refused => cases hstays
      | done _ _ after closed => rw [closed] at hstays; cases hstays
  | finish =>
      have hfinishing := session.finishing
      have hperform : session.perform .finish = session.finish := rfl
      rw [hperform] at hstays
      generalize session.finish = reply at hfinishing hstays
      cases hfinishing with
      | again closed => rw [hopen] at closed; cases closed
      | refused => cases hstays
      | done _ _ _ after closed => rw [closed] at hstays; cases hstays

/-- A session that is open after some operations was open before them. -/
theorem isOpen_of_run {calls : List Call} (h : (session.run calls).2.closed = false) : session.closed = false := by
  cases hclosed : session.closed with
  | false => rfl
  | true =>
      rw [(run_of_closed hclosed calls).2.2, hclosed] at h
      cases h

section Open

variable {origin : Context} {bytes : Bytes} {taken : List Snapshot}

/-- **An operation that leaves the session open loses nothing**, whether it fails or not. -/
theorem Wrote.perform_of_open (h : session.Wrote origin bytes taken) (call : Call)
    (hopen : (session.perform call).2.closed = false) :
    (session.perform call).2.Wrote origin (bytes ++ written [(session.perform call).1])
      (taken ++ added [call]) := by
  cases hcall : call.keepsOpen with
  | true =>
      obtain ⟨output, hreply, hwrote, -⟩ := h.perform hcall
      rw [hreply, show written [.ok output] = output from List.append_nil output]
      exact hwrote
  | false =>
      -- of the operations that end a session only one that is refused leaves it open
      have hperformed := performed_of_open h.isOpen call hopen
      generalize session.perform call = reply at hperformed
      cases hperformed with
      | added => cases hcall
      | flushed => cases hcall
      | refused fault =>
          show session.Wrote origin (bytes ++ []) (taken ++ [])
          rw [List.append_nil, List.append_nil]
          exact h

/-- **A session that is still open has lost nothing**, whatever operations there were. -/
theorem Wrote.run_of_open (h : session.Wrote origin bytes taken) (calls : List Call)
    (hopen : (session.run calls).2.closed = false) :
    (session.run calls).2.Wrote origin (bytes ++ written (session.run calls).1) (taken ++ added calls) := by
  induction calls generalizing session bytes taken with
  | nil =>
      show session.Wrote origin (bytes ++ []) (taken ++ [])
      rw [List.append_nil, List.append_nil]
      exact h
  | cons call calls ih =>
      rw [run_cons] at hopen ⊢
      have hrest := ih (h.perform_of_open call (isOpen_of_run hopen)) hopen
      rw [List.append_assoc, List.append_assoc, ← written_append, ← added_append] at hrest
      exact hrest

end Open

/-! ## Main result -/

end Session

/-- An archive holds snapshots: it has a byte for every item, and it decodes to them as long as lengths fit into
    signed words. -/
def Restores (archive : Bytes) (snapshots : List Snapshot) : Prop :=
  itemCount snapshots ≤ archive.length ∧ (itemCount snapshots < 2 ^ 63 → decode archive = .ok snapshots)

theorem Records.restores {origin target : Context} {bytes : Bytes} {snapshots : List Snapshot}
    (h : Records origin target bytes snapshots) (horigin : origin.counterpart = .withDictionary) :
    Restores (bytes ++ [endMarker]) snapshots :=
  ⟨h.itemCount_le, h.decode horigin⟩

namespace Session

variable {session : Session}

/-- The sink of a session has refused its sidecar. The session is closed for good, and without its context: every
    further operation fails and yields nothing, and the sink is not called again. -/
structure Refused (session : Session) (fault : Fault) (after : Session) : Prop where
  refusal : ∃ sink sidecar, session.sink = some sink ∧ sink sidecar = .error fault ∧
    after.offered = session.offered ++ [sidecar]
  closed : after.closed = true
  released : after.context = none
  final : ∀ calls,
    (∀ reply ∈ (after.run calls).1, ∃ fault, fault.kind = .state ∧ reply = .error fault) ∧
      written (after.run calls).1 = [] ∧ (after.run calls).2 = after

/-- What a session keeps when it ends. Of its monitors only the open segments change, which the reports close. -/
structure KeptBy (session after : Session) : Prop where
  pending : after.pending = session.pending
  headerWritten : after.headerWritten = session.headerWritten
  time : after.time = session.time.settled
  value : after.value = session.value.settled

theorem refused_offering {sink : Sink} {fault : Fault} (hsink : session.sink = some sink)
    (hrefusal : sink session.sidecarOf = .error fault) : session.Refused fault session.offering where
  refusal := ⟨sink, session.sidecarOf, hsink, hrefusal, rfl⟩
  closed := rfl
  released := rfl
  final := run_of_closed rfl

theorem keptBy_offering (session : Session) : session.KeptBy session.offering where
  pending := rfl
  headerWritten := rfl
  time := session.time.report_settles
  value := session.value.report_settles

section Failures

variable {fault : Fault}

/-- **How finalizing fails.** -/
theorem finalize_eq_error (h : session.finalize.1 = .error fault) :
    ((session.closed = true ∨ session.pending ≠ #[]) ∧ fault.kind = .state ∧ session.finalize.2 = session) ∨
      (session.closed = false ∧ session.pending = #[] ∧ session.Refused fault session.finalize.2 ∧
        session.KeptBy session.finalize.2) := by
  have hfinalizing := session.finalizing
  generalize session.finalize = reply at hfinalizing h
  cases hfinalizing with
  | again hclosed =>
      cases h
      exact .inl ⟨.inl hclosed, rfl, rfl⟩
  | early _ hpending =>
      cases h
      exact .inl ⟨.inr hpending, rfl, rfl⟩
  | refused hopen hflushed sink hsink other hrefusal =>
      cases h
      exact .inr ⟨hopen, hflushed, refused_offering hsink hrefusal, session.keptBy_offering⟩
  | done => cases h

/-- **How finishing fails.** -/
theorem finish_eq_error (h : session.finish.1 = .error fault) :
    (session.closed = true ∧ fault.kind = .state ∧ session.finish.2 = session) ∨
      (session.closed = false ∧ session.Refused fault session.finish.2 ∧
        session.flush.2.KeptBy session.finish.2 ∧ session.finish.2.pending = #[]) := by
  have hfinishing := session.finishing
  generalize session.finish = reply at hfinishing h
  cases hfinishing with
  | again hclosed =>
      cases h
      exact .inl ⟨hclosed, rfl, rfl⟩
  | refused hopen sink hsink other hrefusal =>
      cases h
      have hoffered : session.flush.2.offered = session.offered := by rw [flush_of_isOpen hopen]
      have hflushed := session.flush.2.keptBy_offering
      refine .inr ⟨hopen, ⟨⟨sink, _, hsink, hrefusal, ?_⟩, rfl, rfl, run_of_closed rfl⟩, hflushed, ?_⟩
      · exact congrArg (· ++ [session.flush.2.sidecarOf]) hoffered
      · rw [hflushed.pending, flush_of_isOpen hopen]
  | done => cases h

end Failures

/-- **What is left when the end of a session fails.** Whatever has been done before: finalizing fails because the
    session has ended or snapshots are pending, finishing because the session has ended, both with a state fault, and
    then the session is exactly as it was; or they fail because the sink refuses the sidecar, and then the session is
    closed for good and its context is gone. After finalizing, nothing else has changed but that the reports have closed
    the open segments, and all that has been taken in can be read from what has been written. After finishing, the
    session is left as its last flush left it, with nothing pending, but nobody gets the bytes of that flush: only what
    was flushed before can be read, and the snapshots that were pending are lost. As long as a session is open, it gives
    out everything with its next flush. -/
theorem failedEnd_leaves (config : Config) (hvalid : config.validate = .ok ()) (sink : Option Sink)
    (calls : List Call) :
    ∃ start, Session.start config sink = .ok start ∧
      let session := (start.run calls).2
      let bytes := written (start.run calls).1
      (∀ fault, session.finalize.1 = .error fault →
        ((session.closed = true ∨ session.pending ≠ #[]) ∧ fault.kind = .state ∧ session.finalize.2 = session) ∨
        (session.closed = false ∧ session.pending = #[] ∧ session.Refused fault session.finalize.2 ∧
          session.KeptBy session.finalize.2 ∧ Restores (bytes ++ session.owed ++ [endMarker]) (added calls))) ∧
      (∀ fault, session.finish.1 = .error fault →
        (session.closed = true ∧ fault.kind = .state ∧ session.finish.2 = session) ∨
        (session.closed = false ∧ session.Refused fault session.finish.2 ∧
          session.flush.2.KeptBy session.finish.2 ∧ session.finish.2.pending = #[] ∧
          ∃ flushed, flushed ++ session.pending.toList = added calls ∧
            Restores (bytes ++ session.owed ++ [endMarker]) flushed)) ∧
      (session.closed = false →
        ∃ output, session.flush.1 = .ok output ∧ Restores (bytes ++ output ++ [endMarker]) (added calls)) := by
  obtain ⟨start, hstart, -, hwrote⟩ := wrote_start hvalid sink
  have horigin := counterpart_initialWriter config
  refine ⟨start, hstart, ?_⟩
  intro session bytes
  have hopen (h : session.closed = false) :
      session.Wrote (initialWriter config).context bytes (added calls) := hwrote.run_of_open calls h
  refine ⟨?_, ?_, ?_⟩
  · intro fault hfault
    rcases finalize_eq_error hfault with hstate | ⟨hclosed, hpending, hrefused, hkept⟩
    · exact .inl hstate
    · obtain ⟨-, flushed, hrecords, htaken⟩ := hopen hclosed
      rw [hpending, Array.toList_empty, List.append_nil] at htaken
      rw [htaken] at hrecords
      exact .inr ⟨hclosed, hpending, hrefused, hkept, hrecords.restores horigin⟩
  · intro fault hfault
    rcases finish_eq_error hfault with hstate | ⟨hclosed, hrefused, hkept, hnone⟩
    · exact .inl hstate
    · obtain ⟨-, flushed, hrecords, htaken⟩ := hopen hclosed
      exact .inr ⟨hclosed, hrefused, hkept, hnone, flushed, htaken, hrecords.restores horigin⟩
  · intro hclosed
    obtain ⟨output, hreply, -, hrecords, -⟩ := (hopen hclosed).flush
    exact ⟨output, hreply, hrecords.restores horigin⟩

/-- One snapshot with one item. -/
def loneSnapshot : Snapshot := .ofEntries 1 [(1, ⟨2, 3⟩)]

/-- The sink refuses after the snapshot has been flushed: it can be read, though the session has not ended well. -/
theorem finalize_refused_keeps :
    ∃ start, Session.start { runId := "run" } (some (Sink.refusing "disk full")) = .ok start ∧
      let session := (start.run [.add loneSnapshot, .flush]).2
      session.finalize.1 = .error (.sidecarRefused "disk full") ∧
        session.KeptBy session.finalize.2 ∧
        decode (written (start.run [.add loneSnapshot, .flush]).1 ++ session.owed ++ [endMarker])
          = .ok [loneSnapshot] := by
  obtain ⟨start, hstart, hfinalize, -⟩ := failedEnd_leaves { runId := "run" } rfl
    (some (Sink.refusing "disk full")) [.add loneSnapshot, .flush]
  have hfault : (start.run [.add loneSnapshot, .flush]).2.finalize.1 = .error (.sidecarRefused "disk full") := by
    rw [← Except.ok.inj hstart]
    rfl
  refine ⟨start, hstart, hfault, ?_⟩
  rcases hfinalize _ hfault with ⟨-, hstate, -⟩ | ⟨-, -, -, hkept, hrestores⟩
  · cases hstate
  · exact ⟨hkept, hrestores.2 (by decide)⟩

/-- **Finishing loses what it cannot deliver.** A session has taken in one snapshot, and its sink refuses. The fault
    comes back, but nothing is pending any more, the file header counts as written, the session is closed and its
    context is gone. No operation yields a byte from then on, and neither no bytes nor the file header decode to the
    snapshot. -/
theorem finish_refused_loses :
    ∃ start, Session.start { runId := "run" } (some (Sink.refusing "disk full")) = .ok start ∧
      let session := (start.run [.add loneSnapshot]).2
      let failed := session.finish
      failed.1 = .error (.sidecarRefused "disk full") ∧
        session.pending = #[loneSnapshot] ∧ failed.2.pending = #[] ∧
        session.headerWritten = false ∧ failed.2.headerWritten = true ∧
        session.closed = false ∧ failed.2.closed = true ∧
        session.context.isSome = true ∧ failed.2.context = none ∧
        (∀ later, written (start.run (.add loneSnapshot :: .finish :: later)).1 = []) ∧
        decode ([] ++ [endMarker]) ≠ .ok [loneSnapshot] ∧
        decode (FileHeader.print {} ++ [endMarker]) ≠ .ok [loneSnapshot] := by
  refine ⟨_, rfl, rfl, rfl, rfl, rfl, rfl, rfl, rfl, rfl, rfl, ?_, ?_, ?_⟩
  · intro later
    rw [run_cons, run_cons]
    exact (run_of_closed rfl later).2.1
  · intro hdecode
    cases hdecode
  · intro hdecode
    have hempty := (Records.header Context.sound_withDictionary).decode rfl (by decide)
    rw [hempty] at hdecode
    cases hdecode

end Session

end SnapshotArchive

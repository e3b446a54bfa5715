import SnapshotArchive.Proofs.Writer
import SnapshotArchive.Reading
import SnapshotArchive.Session.Basic

/-!
# `Proofs.Session` — what a session writes can be read back at every point

The bytes of a session so far, the file header that it may still owe and the end marker always make up an
archive, and this archive holds exactly the snapshots that have been flushed. The invariant that carries
this through additions and flushes is `Session.Wrote`: the blocks written are those of a trace from the
initial context to the session's own, and the columns of the trace are those of the flushed snapshots.

## Contents
- **Records.** `Records`: bytes that hold snapshots but for the end marker; `Records.writeColumns`,
  `Records.parse`, `Records.decode`.
- **Operations.** `Session.Wrote` and its step lemmas `wrote_start`, `Wrote.add`, `Wrote.flush`,
  `Wrote.finish`.
- **Sequences of operations.** `Session.Wrote.run` and the round trip, `Session.run_roundTrip`.
-/

namespace SnapshotArchive

/-! ## Records -/

/-- The bytes are the file header and the blocks of a trace, the trace holds the columns of the snapshots,
    and every item has taken a byte. Only the end marker is missing. -/
def Records (origin target : Context) (bytes : Bytes) (snapshots : List Snapshot) : Prop :=
  ∃ plans blocks, origin.Leads plans blocks target ∧
    bytes = FileHeader.print {} ++ blocks.flatMap Block.print ∧
    (∀ column, Columns.valuesOf column (plans.map BlockPlan.decoded)
      = (Columns.ofSnapshots snapshots).get column) ∧
    itemCount snapshots ≤ bytes.length

namespace Records

variable {origin target : Context} {bytes : Bytes} {snapshots : List Snapshot}

/-- The file header records no snapshots. -/
theorem header (h : origin.Sound) : Records origin origin (FileHeader.print {}) [] := by
  refine ⟨[], [], Context.Leads.nil h, ?_, ?_, Nat.zero_le _⟩
  · rw [List.flatMap_nil, List.append_nil]
  · intro column
    cases column <;> rfl

/-- **More snapshots are recorded by writing their columns.** -/
theorem writeColumns {writer : Writer} (h : Records origin writer.context bytes snapshots)
    (others : List Snapshot) :
    Records origin (writer.writeColumns (.ofSnapshots others)).2.context
      (bytes ++ (writer.writeColumns (.ofSnapshots others)).1.flatMap fun each => each.block.print)
      (snapshots ++ others) := by
  obtain ⟨plans, blocks, hleads, hbytes, hcolumns, hcount⟩ := h
  obtain ⟨more, hmore, hleads'⟩ := Writer.leads_writeColumns hleads.target_sound (.ofSnapshots others)
  refine ⟨_, _, hleads.append hleads', ?_, ?_, ?_⟩
  · rw [hbytes, List.flatMap_append, List.flatMap_map, List.append_assoc]
  · intro column
    rw [List.map_append, Columns.valuesOf_append, hcolumns, hmore, Columns.get_ofSnapshots_append]
  · rw [itemCount_append, List.length_append]
    exact Nat.add_le_add hcount (writer.itemCount_le_writeColumns others)

/-- An archive has at least as many bytes as items. -/
theorem itemCount_le (h : Records origin target bytes snapshots) :
    itemCount snapshots ≤ (bytes ++ [endMarker]).length := by
  obtain ⟨-, -, -, -, -, hcount⟩ := h
  rw [List.length_append]
  exact Nat.le_trans hcount (Nat.le_add_right _ _)

/-- The blocks of a record are read once the end marker is there. -/
theorem parse (h : Records origin target bytes snapshots) :
    ∃ blocks, (∀ block ∈ blocks, block.WellFormed) ∧
      bytes ++ [endMarker] = Archive.print { flags := fieldwiseTimestamps, blocks } := by
  obtain ⟨plans, blocks, hleads, hbytes, -, -⟩ := h
  refine ⟨blocks, hleads.wellFormed, ?_⟩
  rw [hbytes]
  rfl

/-- **A record decodes to its snapshots** once the end marker is there. -/
theorem decode (h : Records origin target bytes snapshots)
    (horigin : origin.counterpart = .withDictionary) (hcount : itemCount snapshots < 2 ^ 63) :
    SnapshotArchive.decode (bytes ++ [endMarker]) = .ok snapshots := by
  obtain ⟨plans, blocks, hleads, hbytes, hcolumns, -⟩ := h
  have hparse := parseArchive_print { flags := fieldwiseTimestamps, blocks } hleads.wellFormed
  have hread := (hleads.read FileHeader.size).1
  rw [horigin] at hread
  have hcolumns' : readColumns (place FileHeader.size blocks)
      = .ok (.gather (plans.map BlockPlan.decoded)) := bind_eq_ok.mpr ⟨_, hread, rfl⟩
  have hassemble : (Columns.gather (plans.map BlockPlan.decoded)).assemble = .ok snapshots := by
    apply Columns.assemble_of_get _ hcount
    intro column
    rw [Columns.get_gather, hcolumns]
  rw [hbytes]
  exact bind_eq_ok.mpr ⟨_, hparse, bind_eq_ok.mpr ⟨_, hcolumns', hassemble⟩⟩

end Records

/-! ## Operations -/

namespace Session

/-- The file header, if it is still to be written. -/
def owed (session : Session) : Bytes := if session.headerWritten then [] else FileHeader.print {}

/-- **The invariant of an open session** that has taken in some snapshots and written some bytes: the bytes,
    with the file header if it is owed, record all snapshots but the pending ones. -/
structure Wrote (session : Session) (origin : Context) (bytes : Bytes) (taken : List Snapshot) : Prop where
  isOpen : session.closed = false
  recorded : ∃ flushed, Records origin session.writer.context (bytes ++ session.owed) flushed ∧
    flushed ++ session.pending.toList = taken

variable {session : Session} {origin : Context} {bytes : Bytes} {taken : List Snapshot}

theorem sound_initialWriter (config : Config) : (initialWriter config).context.Sound := by
  unfold initialWriter
  cases config.contextMode with
  | on => exact Context.sound_withDictionary
  | off => exact Context.sound_withoutDictionary

/-- Whether or not a session uses a dictionary, its reader starts with the standard one. -/
theorem counterpart_initialWriter (config : Config) :
    (initialWriter config).context.counterpart = .withDictionary := by
  unfold initialWriter
  cases config.contextMode <;> rfl

theorem start_of_valid {config : Config} (h : config.validate = .ok ()) (sink : Option Sink) :
    start config sink = .ok (fresh config sink) :=
  bind_eq_ok.mpr ⟨(), h, rfl⟩

/-- A valid configuration starts a session that has written nothing. -/
theorem wrote_start {config : Config} (h : config.validate = .ok ()) (sink : Option Sink) :
    ∃ session, start config sink = .ok session ∧ session.sink = sink ∧
      session.Wrote (initialWriter config).context [] [] := by
  refine ⟨fresh config sink, start_of_valid h sink, rfl, rfl, [], ?_, rfl⟩
  exact Records.header (sound_initialWriter config)

theorem add_of_isOpen (h : session.closed = false) (snapshot : Snapshot) :
    session.add snapshot = (.ok (), { session with pending := session.pending.push snapshot }) := by
  unfold Session.add
  rw [if_neg (ne_true_of_eq_false h)]

/-- Taking in a snapshot writes nothing. -/
theorem Wrote.add (h : session.Wrote origin bytes taken) (snapshot : Snapshot) :
    (session.add snapshot).1 = .ok () ∧
      (session.add snapshot).2.Wrote origin bytes (taken ++ [snapshot]) ∧
      (session.add snapshot).2.sink = session.sink := by
  obtain ⟨hopen, flushed, hrecords, htaken⟩ := h
  rw [add_of_isOpen hopen]
  refine ⟨rfl, ⟨hopen, flushed, hrecords, ?_⟩, rfl⟩
  rw [← htaken, Array.toList_push, List.append_assoc]

/-- An open session flushes: it has its context. -/
theorem flush_of_isOpen (h : session.closed = false) :
    let writing := session.writer.writeColumns (.ofSnapshots session.pending.toList)
    let telemetry := { session.telemetry with blocks := writing.1.map Written.record }
    session.flush =
      (.ok (session.owed ++ writing.1.flatMap fun each => each.block.print),
        { session with
          context := some writing.2.context
          time := writing.2.time
          value := writing.2.value
          pending := #[]
          headerWritten := true
          telemetry := telemetry.setTotals [writing.2.time.tally, writing.2.value.tally]
          holdsContext := fun _ => rfl }) := by
  obtain ⟨context, hcontext⟩ := Option.isSome_iff_exists.mp (session.holdsContext h)
  have hwriter : session.writer = { context, time := session.time, value := session.value } := by
    unfold writer
    rw [hcontext, Option.getD_some]
  unfold Session.flush
  rw [hwriter, hcontext, if_neg (ne_true_of_eq_false h)]
  rfl

/-- **A flush records the pending snapshots.** Afterwards none are pending, and no file header is owed. -/
theorem Wrote.flush (h : session.Wrote origin bytes taken) :
    ∃ output, session.flush.1 = .ok output ∧ session.flush.2.Wrote origin (bytes ++ output) taken ∧
      Records origin session.flush.2.writer.context (bytes ++ output) taken ∧
      session.flush.2.pending = #[] ∧ session.flush.2.sink = session.sink := by
  obtain ⟨hopen, flushed, hrecords, htaken⟩ := h
  have hmore := hrecords.writeColumns session.pending.toList
  rw [htaken, List.append_assoc] at hmore
  rw [flush_of_isOpen hopen]
  refine ⟨_, rfl, ⟨hopen, taken, ?_, ?_⟩, hmore, rfl, rfl⟩
  · show Records origin _ (_ ++ []) taken
    rw [List.append_nil]
    exact hmore
  · exact List.append_nil taken

/-- Finishing flushes, then answers as finalizing does, with the end marker behind the flushed bytes. -/
theorem Wrote.finish (h : session.Wrote origin bytes taken) :
    ∃ output target, Records origin target (bytes ++ output) taken ∧
      session.finish.1 = session.flush.2.finalize.1.map fun _ => output ++ [endMarker] := by
  obtain ⟨output, hflush, -, hrecords, -, -⟩ := h.flush
  refine ⟨output, _, hrecords, ?_⟩
  have hpair : session.flush = (.ok output, session.flush.2) := Prod.ext hflush rfl
  unfold Session.finish
  rw [hpair]
  rcases hfinalize : session.flush.2.finalize with ⟨reply, ended⟩
  cases reply with
  | error fault => simp only [hfinalize, Except.map]
  | ok done => simp only [hfinalize, Except.map]

/-- Finalizing fails only if the session has ended, if snapshots are pending or if the sink refuses the
    sidecar. -/
theorem finalize_eq_ok (hopen : session.closed = false) (hpending : session.pending = #[])
    (hsink : ∀ sink sidecar, session.sink = some sink → sink sidecar = .ok ()) :
    session.finalize.1 = .ok () := by
  have hsize : ¬session.pending.size ≠ 0 := by
    intro hne
    rw [hpending] at hne
    exact hne rfl
  unfold Session.finalize
  rw [if_neg (ne_true_of_eq_false hopen), if_neg hsize]
  cases hcase : session.sink with
  | none => rfl
  | some sink => simp only [hsink sink _ hcase]

/-- **Finishing an open session succeeds** unless its sink refuses the sidecar. -/
theorem Wrote.finish_eq_ok (h : session.Wrote origin bytes taken)
    (hsink : ∀ sink sidecar, session.sink = some sink → sink sidecar = .ok ()) :
    ∃ output target, Records origin target (bytes ++ output) taken ∧
      session.finish.1 = .ok (output ++ [endMarker]) := by
  obtain ⟨_, -, hwrote, -, hpending, hkept⟩ := h.flush
  obtain ⟨output, target, hrecords, hfinish⟩ := h.finish
  refine ⟨output, target, hrecords, ?_⟩
  rw [← hkept] at hsink
  rw [hfinish, finalize_eq_ok hwrote.isOpen hpending hsink]
  rfl

end Session

/-! ## Sequences of operations -/

/-- The operations that leave a session open: taking in a snapshot, and flushing. -/
def Call.keepsOpen : Call → Bool
  | .add _ | .flush => true
  | .finalize | .finish => false

/-- The snapshots that a sequence of operations takes in. -/
def added : List Call → List Snapshot
  | [] => []
  | .add snapshot :: calls => snapshot :: added calls
  | _ :: calls => added calls

/-- The bytes in a sequence of replies. -/
def written : List (Except Fault Bytes) → Bytes
  | [] => []
  | .ok bytes :: replies => bytes ++ written replies
  | .error _ :: replies => written replies

theorem added_append (calls others : List Call) : added (calls ++ others) = added calls ++ added others := by
  induction calls with
  | nil => rfl
  | cons call calls ih =>
      cases call with
      | add snapshot => rw [List.cons_append, added, added, ih, List.cons_append]
      | flush | finalize | finish => exact ih

theorem written_append (replies others : List (Except Fault Bytes)) :
    written (replies ++ others) = written replies ++ written others := by
  induction replies with
  | nil => rfl
  | cons reply replies ih =>
      cases reply with
      | ok bytes => rw [List.cons_append, written, written, ih, List.append_assoc]
      | error fault => exact ih

namespace Session

variable {session : Session} {origin : Context} {bytes : Bytes} {taken : List Snapshot}

theorem run_cons (session : Session) (call : Call) (calls : List Call) :
    session.run (call :: calls) =
      ((session.perform call).1 :: ((session.perform call).2.run calls).1,
        ((session.perform call).2.run calls).2) := rfl

theorem run_append (session : Session) (calls others : List Call) :
    session.run (calls ++ others) =
      ((session.run calls).1 ++ ((session.run calls).2.run others).1,
        ((session.run calls).2.run others).2) := by
  induction calls generalizing session with
  | nil => rfl
  | cons call calls ih =>
      rw [List.cons_append, run_cons, run_cons, ih]
      rfl

theorem length_run (session : Session) (calls : List Call) :
    (session.run calls).1.length = calls.length := by
  induction calls generalizing session with
  | nil => rfl
  | cons call calls ih => exact congrArg Nat.succ (ih (session.perform call).2)

/-- **One operation keeps the invariant** and does not fail. -/
theorem Wrote.perform (h : session.Wrote origin bytes taken) {call : Call} (hcall : call.keepsOpen) :
    ∃ output, (session.perform call).1 = .ok output ∧
      (session.perform call).2.Wrote origin (bytes ++ output) (taken ++ added [call]) ∧
      (session.perform call).2.sink = session.sink := by
  cases call with
  | add snapshot =>
      obtain ⟨hreply, hwrote, hkept⟩ := h.add snapshot
      refine ⟨[], ?_, ?_, hkept⟩
      · show (session.add snapshot).1.map _ = _
        rw [hreply]
        rfl
      · rw [List.append_nil]
        exact hwrote
  | flush =>
      obtain ⟨output, hreply, hwrote, -, -, hkept⟩ := h.flush
      refine ⟨output, hreply, ?_, hkept⟩
      rw [show added [.flush] = [] from rfl, List.append_nil]
      exact hwrote
  | finalize | finish => cases hcall

/-- **A sequence of operations keeps the invariant**, and none of them fails. -/
theorem Wrote.run (h : session.Wrote origin bytes taken) {calls : List Call}
    (hcalls : ∀ call ∈ calls, call.keepsOpen) :
    (∀ reply ∈ (session.run calls).1, reply.isOk) ∧
      (session.run calls).2.Wrote origin (bytes ++ written (session.run calls).1) (taken ++ added calls) ∧
      (session.run calls).2.sink = session.sink := by
  induction calls generalizing session bytes taken with
  | nil =>
      refine ⟨nofun, ?_, rfl⟩
      show session.Wrote origin (bytes ++ []) (taken ++ [])
      rw [List.append_nil, List.append_nil]
      exact h
  | cons call calls ih =>
      obtain ⟨output, hreply, hwrote, hkept⟩ := h.perform (hcalls call List.mem_cons_self)
      obtain ⟨hreplies, hwrotes, hkepts⟩ :=
        ih hwrote (fun other hother => hcalls other (List.mem_cons_of_mem _ hother))
      rw [List.append_assoc, List.append_assoc, ← added_append] at hwrotes
      rw [run_cons, hreply, written]
      refine ⟨?_, hwrotes, hkepts.trans hkept⟩
      intro reply hmem
      rcases List.mem_cons.mp hmem with rfl | hmem
      · rfl
      · exact hreplies reply hmem

/-- Taking in snapshots one after another does not fail. -/
theorem Wrote.addAll (h : session.Wrote origin bytes taken) (snapshots : List Snapshot) :
    ∃ after, session.addAll snapshots = .ok after ∧ after.Wrote origin bytes (taken ++ snapshots) := by
  induction snapshots generalizing session taken with
  | nil =>
      refine ⟨session, rfl, ?_⟩
      rw [List.append_nil]
      exact h
  | cons snapshot snapshots ih =>
      obtain ⟨hreply, hwrote, -⟩ := h.add snapshot
      obtain ⟨after, hafter, hwrotes⟩ := ih hwrote
      rw [List.append_assoc] at hwrotes
      refine ⟨after, ?_, hwrotes⟩
      have hpair : session.add snapshot = (.ok (), (session.add snapshot).2) := Prod.ext hreply rfl
      rw [Session.addAll, hpair]
      exact hafter

/-- The replies to the beginning of a sequence of operations. -/
theorem take_run (session : Session) (before after : List Call) :
    (session.run (before ++ after)).1.take before.length = (session.run before).1 := by
  rw [run_append, ← session.length_run before, List.take_left]

/-- After a flush, what has been written records all that has been taken in. -/
theorem Wrote.run_flush (h : session.Wrote origin bytes taken) {calls : List Call}
    (hcalls : ∀ call ∈ calls, call.keepsOpen) :
    ∃ target, Records origin target (bytes ++ written (session.run (calls ++ [.flush])).1)
      (taken ++ added calls) := by
  obtain ⟨-, hran, -⟩ := h.run hcalls
  obtain ⟨output, hreply, -, hrecords, -, -⟩ := hran.flush
  have hlast : ((session.run calls).2.run [.flush]).1 = [.ok output] :=
    congrArg (fun reply => [reply]) hreply
  refine ⟨(session.run calls).2.flush.2.writer.context, ?_⟩
  rw [run_append, written_append, hlast, written, written, List.append_nil, ← List.append_assoc]
  exact hrecords

/-- After finishing, what has been written completes a record of all that has been taken in. -/
theorem Wrote.run_finish (h : session.Wrote origin bytes taken) {calls : List Call}
    (hcalls : ∀ call ∈ calls, call.keepsOpen)
    (hsink : ∀ sink sidecar, session.sink = some sink → sink sidecar = .ok ()) :
    (∀ reply ∈ (session.run (calls ++ [.finish])).1, reply.isOk) ∧
      ∃ recorded target, Records origin target recorded (taken ++ added calls) ∧
        bytes ++ written (session.run (calls ++ [.finish])).1 = recorded ++ [endMarker] := by
  obtain ⟨hreplies, hran, hkept⟩ := h.run hcalls
  rw [← hkept] at hsink
  obtain ⟨output, target, hrecords, hfinish⟩ := hran.finish_eq_ok hsink
  have hlast : ((session.run calls).2.run [.finish]).1 = [.ok (output ++ [endMarker])] :=
    congrArg (fun reply => [reply]) hfinish
  rw [run_append]
  refine ⟨?_, _, target, hrecords, ?_⟩
  · intro reply hmem
    rcases List.mem_append.mp hmem with hmem | hmem
    · exact hreplies reply hmem
    · rw [hlast] at hmem
      rw [List.mem_singleton.mp hmem]
      rfl
  · rw [written_append, hlast, written, written, List.append_nil, List.append_assoc, List.append_assoc]

/-- **What a session writes can be read back at every point.** Under every valid configuration, however
    snapshots are taken in and flushed: no operation fails; after every flush, the bytes of all replies so
    far and the end marker decode to exactly the snapshots taken in before the flush, in order; and if
    there is no sink or it never fails, finishing succeeds too and completes the bytes to an archive of
    all snapshots. Lengths are stored as signed words, so there have to be fewer than `2 ^ 63` items. An
    archive has at least as many bytes as items, so this holds of all that fits into a memory. -/
theorem run_roundTrip (config : Config) (hvalid : config.validate = .ok ()) (sink : Option Sink)
    (calls : List Call) (hcalls : ∀ call ∈ calls, call.keepsOpen) :
    ∃ session, start config sink = .ok session ∧
      (∀ reply ∈ (session.run calls).1, reply.isOk) ∧
      (∀ before after, calls = before ++ .flush :: after →
        let archive := written ((session.run calls).1.take (before.length + 1)) ++ [endMarker]
        itemCount (added before) ≤ archive.length ∧
          (itemCount (added before) < 2 ^ 63 → decode archive = .ok (added before))) ∧
      ((∀ each sidecar, sink = some each → each sidecar = .ok ()) →
        let archive := written (session.run (calls ++ [.finish])).1
        (∀ reply ∈ (session.run (calls ++ [.finish])).1, reply.isOk) ∧
          itemCount (added calls) ≤ archive.length ∧
          (itemCount (added calls) < 2 ^ 63 → decode archive = .ok (added calls))) := by
  obtain ⟨session, hstart, hsink, hwrote⟩ := wrote_start hvalid sink
  have horigin := counterpart_initialWriter config
  obtain ⟨hreplies, hran, hkept⟩ := hwrote.run hcalls
  refine ⟨session, hstart, hreplies, ?_, ?_⟩
  · rintro before after rfl
    have hbefore : ∀ call ∈ before, call.keepsOpen :=
      fun call hmem => hcalls call (List.mem_append_left _ hmem)
    obtain ⟨target, hrecords⟩ := hwrote.run_flush hbefore
    have htake := take_run session (before ++ [.flush]) after
    rw [List.append_assoc, List.singleton_append, List.length_append, List.length_singleton] at htake
    simp only [htake]
    exact ⟨hrecords.itemCount_le, hrecords.decode horigin⟩
  · intro hnever
    rw [← hsink] at hnever
    obtain ⟨hfinished, recorded, target, hrecords, hbytes⟩ := hwrote.run_finish hcalls hnever
    rw [List.nil_append] at hbytes
    simp only [hbytes]
    exact ⟨hfinished, hrecords.itemCount_le, hrecords.decode horigin⟩

/-- Two flushes with two snapshots in one of them, then a snapshot without items that is still pending. -/
def sampleCalls : List Call :=
  [.add (.ofEntries 1000 [(7, ⟨250, 3⟩), (-2, ⟨-40, 1⟩)]), .flush,
    .add (.ofEntries 1060 [(7, ⟨251, 3⟩)]), .add (.ofEntries (-5) [(7, ⟨0, 0⟩)]), .flush, .add (.empty 0)]

theorem run_sampleCalls :
    ∃ session, start { runId := "run", probeInterval := 1 } (some Sink.memory) = .ok session ∧
      (∀ reply ∈ (session.run sampleCalls).1, reply.isOk) ∧
      decode (written ((session.run sampleCalls).1.take 2) ++ [endMarker])
        = .ok (added (sampleCalls.take 1)) ∧
      decode (written (session.run (sampleCalls ++ [.finish])).1) = .ok (added sampleCalls) := by
  obtain ⟨session, hstart, hreplies, hflush, hfinish⟩ :=
    run_roundTrip { runId := "run", probeInterval := 1 } (by rfl) (some Sink.memory) sampleCalls (by decide)
  refine ⟨session, hstart, hreplies, ?_, ?_⟩
  · exact (hflush (sampleCalls.take 1) (sampleCalls.drop 2) rfl).2 (by decide)
  · refine (hfinish ?_).2.2 (by decide)
    intro each sidecar heach
    rw [← Option.some.inj heach]
    rfl

end Session

/-! ## Whole archives -/

/-- Encoding snapshots at once gives the print of an archive, whatever the sink. -/
theorem encode_print {config : Config} {snapshots : List Snapshot} {sink : Option Sink} {bytes : Bytes}
    (h : encode config snapshots sink = .ok bytes) :
    ∃ blocks, (∀ block ∈ blocks, block.WellFormed) ∧
      bytes = Archive.print { flags := fieldwiseTimestamps, blocks } := by
  obtain ⟨session, hstart, h⟩ := bind_eq_ok.mp h
  obtain ⟨loaded, hload, hfinish⟩ := bind_eq_ok.mp h
  obtain ⟨⟨⟩, hvalid, -⟩ := bind_eq_ok.mp hstart
  obtain ⟨session', hstart', -, hwrote⟩ := Session.wrote_start hvalid sink
  rw [hstart'] at hstart
  obtain ⟨loaded', hload', hloaded⟩ := hwrote.addAll snapshots
  rw [Except.ok.inj hstart, hload] at hload'
  rw [← Except.ok.inj hload'] at hloaded
  obtain ⟨output, target, hrecords, hreply⟩ := hloaded.finish
  rw [hfinish] at hreply
  obtain ⟨-, -, hbytes⟩ := map_eq_ok.mp hreply.symm
  rw [← hbytes]
  exact hrecords.parse

end SnapshotArchive

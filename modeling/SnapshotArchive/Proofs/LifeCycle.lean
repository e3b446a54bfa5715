import SnapshotArchive.Proofs.Ending
import SnapshotArchive.Proofs.Truncation

/-!
# `Proofs.LifeCycle` — the law of a session's life

A session is open until it ends, and it ends once: when finalizing or finishing succeeds, or when the sink refuses
the sidecar. What a session answers and what it shows afterwards is a matter of what has happened so far. Its flags
and its records are no more than a memory of that: each is set by exactly one kind of event (the step lemmas
`Session.Performing.closed_iff` and its siblings), and so, by induction on the operations, each is set exactly if
such an event has occurred (`Session.run_iff`).

## Contents
- **Events.** `Session.Occurs`; `Session.Completes`, `Session.IsRefused`, `Session.Ends`, `Session.Yields`.
- **Steps.** `Session.Performing` and `Session.performing`, the six ways to perform an operation;
  `Session.Performing.closed_iff` and its siblings, what each kind of event leaves behind; `Session.AsksOnce`.
- **Answers.** `Session.failsWith_perform_iff`, `Session.failsWith_finalize_iff`, `Session.finalize_refused_iff`,
  `Session.perform_of_state`, `Session.yields_blocks`.
- **Runs.** `Session.run_invariant` and `Session.run_iff`; `Session.closed_run_iff`, `Session.headerWritten_run_iff`.
- **Main result.** `Session.run_lifeCycle`; `Session.finalize_passes_state`, a state fault of the sink.
-/

namespace SnapshotArchive

/-- The operations that yield bytes of the archive. -/
def Call.writes : Call → Bool
  | .flush | .finish => true
  | .add _ | .finalize => false

/-- What an operation adds behind the blocks that it yields. -/
def Call.tail : Call → Bytes
  | .finish => [endMarker]
  | .add _ | .flush | .finalize => []

namespace Session

/-! ## Events -/

/-- What can be observed of one operation: the session before it, the operation, and its reply with the session
    after it. -/
abbrev Event : Type := Session → Call → Except Fault Bytes × Session → Prop

/-- Finalizing or finishing succeeds. -/
def Completes : Event := fun _ call outcome =>
  call.keepsOpen = false ∧ ∃ output, outcome.1 = .ok output

/-- Finalizing or finishing fails in the sink. -/
def IsRefused : Event := fun session call outcome =>
  call.keepsOpen = false ∧ ∃ sink sidecar fault, session.sink = some sink ∧ sink sidecar = .error fault ∧
    outcome.1 = .error fault ∧ outcome.2.offered = session.offered ++ [sidecar]

/-- The session ends, one way or the other. -/
def Ends : Event := fun session call outcome => Completes session call outcome ∨ IsRefused session call outcome

/-- Flushing or finishing succeeds. -/
def Yields : Event := fun _ call outcome => call.writes = true ∧ ∃ output, outcome.1 = .ok output

/-- An event occurs at one of the operations. -/
def Occurs (session : Session) (calls : List Call) (event : Event) : Prop :=
  ∃ before call after, calls = before ++ call :: after ∧
    event (session.run before).2 call ((session.run before).2.perform call)

variable {session : Session}

theorem not_occurs_nil (event : Event) : ¬session.Occurs [] event := by
  rintro ⟨before, call, after, hnil, -⟩
  exact List.append_ne_nil_of_right_ne_nil before (List.cons_ne_nil call after) hnil.symm

/-- An event occurs at the first operation or later. -/
theorem occurs_cons {call : Call} {calls : List Call} {event : Event} :
    session.Occurs (call :: calls) event ↔
      event session call (session.perform call) ∨ (session.perform call).2.Occurs calls event := by
  constructor
  · rintro ⟨before, other, after, hcalls, hevent⟩
    cases before with
    | nil =>
        obtain ⟨rfl, rfl⟩ := List.cons.inj hcalls
        exact .inl hevent
    | cons first before =>
        obtain ⟨rfl, rfl⟩ := List.cons.inj hcalls
        exact .inr ⟨before, other, after, rfl, hevent⟩
  · rintro (hevent | ⟨before, other, after, rfl, hevent⟩)
    · exact ⟨[], call, calls, rfl, hevent⟩
    · exact ⟨call :: before, other, after, rfl, hevent⟩

/-! ## Steps -/

/-- The session ended without a fault. -/
def completed (session : Session) : Session :=
  match session.sink with
  | none => { session.ended with sidecar := some session.sidecarOf }
  | some _ =>
      { session.offering with
        sidecar := some session.sidecarOf
        telemetry := { session.telemetry with sidecar := some session.sidecarOf.fileName } }

/-- The session as it is when its end comes: finishing flushes first. -/
def readied (session : Session) : Call → Session
  | .finish => session.flush.2
  | .add _ | .flush | .finalize => session

/-- All that performing an operation can come to. -/
inductive Performing (session : Session) : Call → Except Fault Bytes × Session → Prop where
  /-- The session has ended before. -/
  | again (closed : session.closed = true) (call : Call) (fault : Fault) (kind : fault.kind = .state) :
      Performing session call (.error fault, session)
  | added (isOpen : session.closed = false) (snapshot : Snapshot) :
      Performing session (.add snapshot) (.ok [], { session with pending := session.pending.push snapshot })
  | flushed (isOpen : session.closed = false) (output : Bytes) :
      Performing session .flush (.ok output, session.flush.2)
  /-- Snapshots are pending. -/
  | early (isOpen : session.closed = false) (pending : session.pending ≠ #[]) :
      Performing session .finalize (.error (.unflushed session.pending.size), session)
  /-- The sink refuses the sidecar. -/
  | refused (isOpen : session.closed = false) (call : Call) (ends : call.keepsOpen = false)
      (ready : (session.readied call).pending = #[]) (sink : Sink) (attached : session.sink = some sink)
      (fault : Fault) (refusal : sink (session.readied call).sidecarOf = .error fault) :
      Performing session call (.error fault, (session.readied call).offering)
  /-- The session ends. -/
  | done (isOpen : session.closed = false) (call : Call) (ends : call.keepsOpen = false)
      (ready : (session.readied call).pending = #[]) (output : Bytes) :
      Performing session call (.ok output, (session.readied call).completed)

/-- With nothing pending, an open session ends. -/
theorem finalize_of_ready (hopen : session.closed = false) (hpending : session.pending = #[]) :
    (∃ sink fault, session.sink = some sink ∧ sink session.sidecarOf = .error fault ∧
        session.finalize = (.error fault, session.offering)) ∨
      session.finalize = (.ok (), session.completed) := by
  rw [finalize_of_flushed hopen hpending, completed]
  cases hsink : session.sink with
  | none => exact .inr rfl
  | some sink =>
      cases hreply : sink session.sidecarOf with
      | error fault => exact .inl ⟨sink, fault, rfl, hreply, by simp only [hreply]⟩
      | ok done => exact .inr (by simp only [hreply])

theorem performing (session : Session) (call : Call) : session.Performing call (session.perform call) := by
  cases hclosed : session.closed with
  | true =>
      obtain ⟨fault, hkind, hperform⟩ := perform_of_closed hclosed call
      rw [hperform]
      exact .again hclosed call fault hkind
  | false =>
      cases call with
      | add snapshot =>
          have hadd := add_of_isOpen hclosed snapshot
          have hperform : session.perform (.add snapshot)
              = (.ok [], { session with pending := session.pending.push snapshot }) := by
            unfold perform
            simp only [hadd]
            rfl
          rw [hperform]
          exact .added hclosed snapshot
      | flush =>
          obtain ⟨output, hreply⟩ : ∃ output, session.flush.1 = .ok output :=
            ⟨_, congrArg Prod.fst (flush_of_isOpen hclosed)⟩
          have hperform : session.perform .flush = (.ok output, session.flush.2) := Prod.ext hreply rfl
          rw [hperform]
          exact .flushed hclosed output
      | finalize =>
          have hperform : session.perform .finalize
              = (session.finalize.1.map fun _ => [], session.finalize.2) := rfl
          rw [hperform]
          by_cases hpending : session.pending = #[]
          · rcases finalize_of_ready hclosed hpending with ⟨sink, fault, hsink, hrefusal, hfinalize⟩ | hfinalize
            · rw [hfinalize]
              exact .refused hclosed .finalize rfl hpending sink hsink fault hrefusal
            · rw [hfinalize]
              exact .done hclosed .finalize rfl hpending []
          · have hfinalizing := session.finalizing
            generalize session.finalize = outcome at hfinalizing
            cases hfinalizing with
            | again closed => rw [hclosed] at closed; cases closed
            | early => exact .early hclosed hpending
            | refused _ flushed | done _ flushed => exact absurd flushed hpending
      | finish =>
          obtain ⟨flushed, -, hopen, hpending, hsink, hfinish⟩ := finish_of_isOpen hclosed
          have hperform : session.perform .finish = session.finish := rfl
          rw [hperform, hfinish]
          rcases finalize_of_ready hopen hpending with ⟨sink, fault, hattached, hrefusal, hfinalize⟩ | hfinalize
          · rw [hfinalize]
            exact .refused hclosed .finish rfl hpending sink (hsink ▸ hattached) fault hrefusal
          · rw [hfinalize]
            exact .done hclosed .finish rfl hpending (flushed ++ [endMarker])

/-- Getting ready for the end concerns neither the sink nor what it is told. -/
theorem readied_of_isOpen (h : session.closed = false) (call : Call) :
    (session.readied call).sink = session.sink ∧ (session.readied call).offered = session.offered ∧
      (session.readied call).sidecar = session.sidecar ∧
      (session.readied call).telemetry.sidecar = session.telemetry.sidecar := by
  cases call with
  | add | flush | finalize => exact ⟨rfl, rfl, rfl, rfl⟩
  | finish =>
      rw [readied, flush_of_isOpen h]
      exact ⟨rfl, rfl, rfl, rfl⟩

theorem closed_completed (session : Session) : session.completed.closed = true := by
  unfold completed
  split <;> rfl

theorem sidecar_completed (session : Session) : session.completed.sidecar.isSome = true := by
  unfold completed
  split <;> rfl

theorem telemetry_completed (session : Session) :
    session.completed.telemetry.sidecar.isSome = true ↔
      session.telemetry.sidecar.isSome = true ∨ session.sink.isSome = true := by
  unfold completed
  cases session.sink with
  | none => exact (or_iff_left nofun).symm
  | some sink => exact iff_of_true rfl (.inr rfl)

theorem offered_completed (session : Session) :
    session.completed.offered.length ≤ session.offered.length + 1 := by
  unfold completed
  split
  · exact Nat.le_succ _
  · exact Nat.le_of_eq List.length_append

/-! ### What an event leaves behind -/

section Events

variable {call : Call} {outcome : Except Fault Bytes × Session}

/-- An operation that keeps the session open does not end it. -/
theorem not_ends_of_keepsOpen (h : call.keepsOpen = true) : ¬Ends session call outcome := by
  rintro (⟨hends, -⟩ | ⟨hends, -⟩)
  · exact absurd (h.symm.trans hends) nofun
  · exact absurd (h.symm.trans hends) nofun

/-- What leaves the session as it was has not ended it. -/
theorem not_ends_of_unchanged {fault : Fault} : ¬Ends session call (.error fault, session) := by
  rintro (⟨-, output, hreply⟩ | ⟨-, sink, sidecar, other, -, -, -, hoffered⟩)
  · cases hreply
  · exact List.cons_ne_nil _ _ (List.self_eq_append_right.mp hoffered)

theorem ends_refused (h : session.closed = false) (hends : call.keepsOpen = false) {sink : Sink}
    (hsink : session.sink = some sink) {fault : Fault}
    (hrefusal : sink (session.readied call).sidecarOf = .error fault) :
    IsRefused session call (.error fault, (session.readied call).offering) := by
  obtain ⟨-, hoffered, -, -⟩ := readied_of_isOpen h call
  refine ⟨hends, sink, (session.readied call).sidecarOf, fault, hsink, hrefusal, rfl, ?_⟩
  show (session.readied call).offered ++ _ = _
  rw [hoffered]

/-- **A session is closed by its end.** -/
theorem Performing.closed_iff (h : session.Performing call outcome) :
    outcome.2.closed = true ↔ session.closed = true ∨ Ends session call outcome := by
  cases h with
  | again closed call fault kind => exact iff_of_true closed (.inl closed)
  | added isOpen snapshot => exact (or_iff_left (not_ends_of_keepsOpen rfl)).symm
  | flushed isOpen output =>
      rw [or_iff_left (not_ends_of_keepsOpen rfl), flush_of_isOpen isOpen]
  | early isOpen pending => exact (or_iff_left not_ends_of_unchanged).symm
  | refused isOpen call ends ready sink attached fault refusal =>
      exact iff_of_true rfl (.inr (.inr (ends_refused isOpen ends attached refusal)))
  | done isOpen call ends ready output =>
      exact iff_of_true (closed_completed _) (.inr (.inl ⟨ends, output, rfl⟩))

theorem not_completes_of_error {fault : Fault} {after : Session} : ¬Completes session call (.error fault, after) := by
  rintro ⟨-, output, hreply⟩
  cases hreply

theorem not_completes_of_keepsOpen (h : call.keepsOpen = true) : ¬Completes session call outcome :=
  fun hcompletes => not_ends_of_keepsOpen h (.inl hcompletes)

/-- **The report appears when the session completes.** -/
theorem Performing.sidecar_iff (h : session.Performing call outcome) :
    outcome.2.sidecar.isSome = true ↔ session.sidecar.isSome = true ∨ Completes session call outcome := by
  cases h with
  | again closed call fault kind => exact (or_iff_left not_completes_of_error).symm
  | added isOpen snapshot => exact (or_iff_left (not_completes_of_keepsOpen rfl)).symm
  | flushed isOpen output =>
      rw [or_iff_left (not_completes_of_keepsOpen rfl), flush_of_isOpen isOpen]
  | early isOpen pending => exact (or_iff_left not_completes_of_error).symm
  | refused isOpen call ends ready sink attached fault refusal =>
      obtain ⟨-, -, hsidecar, -⟩ := readied_of_isOpen isOpen call
      rw [or_iff_left not_completes_of_error, ← hsidecar]
      rfl
  | done isOpen call ends ready output =>
      exact iff_of_true (sidecar_completed _) (.inr ⟨ends, output, rfl⟩)

/-- **The name of the report appears when the session completes with a sink.** -/
theorem Performing.telemetry_iff (h : session.Performing call outcome) :
    outcome.2.telemetry.sidecar.isSome = true ↔
      session.telemetry.sidecar.isSome = true ∨ Completes session call outcome ∧ session.sink.isSome = true := by
  cases h with
  | again closed call fault kind => exact (or_iff_left fun h => not_completes_of_error h.1).symm
  | added isOpen snapshot => exact (or_iff_left fun h => not_completes_of_keepsOpen rfl h.1).symm
  | flushed isOpen output =>
      rw [or_iff_left fun h => not_completes_of_keepsOpen rfl h.1, flush_of_isOpen isOpen]
      rfl
  | early isOpen pending => exact (or_iff_left fun h => not_completes_of_error h.1).symm
  | refused isOpen call ends ready sink attached fault refusal =>
      obtain ⟨-, -, -, htelemetry⟩ := readied_of_isOpen isOpen call
      rw [or_iff_left fun h => not_completes_of_error h.1, ← htelemetry]
      rfl
  | done isOpen call ends ready output =>
      obtain ⟨hsink, -, -, htelemetry⟩ := readied_of_isOpen isOpen call
      have hcompletes : Completes session call (.ok output, (session.readied call).completed) := ⟨ends, output, rfl⟩
      rw [telemetry_completed, hsink, htelemetry, and_iff_right hcompletes]

/-- **No file header is owed** once bytes have been yielded or the session has ended. -/
theorem Performing.owes_nothing_iff (h : session.Performing call outcome) :
    (outcome.2.headerWritten = true ∨ outcome.2.closed = true) ↔
      (session.headerWritten = true ∨ session.closed = true) ∨
        (Yields session call outcome ∨ Ends session call outcome) := by
  cases h with
  | again closed call fault kind => exact iff_of_true (.inr closed) (.inl (.inr closed))
  | added isOpen snapshot =>
      refine (or_iff_left ?_).symm
      rintro (hyields | hends)
      · cases hyields.1
      · exact not_ends_of_keepsOpen rfl hends
  | flushed isOpen output =>
      refine iff_of_true (.inl ?_) (.inr (.inl ⟨rfl, output, rfl⟩))
      rw [flush_of_isOpen isOpen]
  | early isOpen pending =>
      refine (or_iff_left ?_).symm
      rintro (hyields | hends)
      · cases hyields.1
      · exact not_ends_of_unchanged hends
  | refused isOpen call ends ready sink attached fault refusal =>
      exact iff_of_true (.inr rfl) (.inr (.inr (.inr (ends_refused isOpen ends attached refusal))))
  | done isOpen call ends ready output =>
      exact iff_of_true (.inr (closed_completed _)) (.inr (.inr (.inl ⟨ends, output, rfl⟩)))

end Events

/-- The sink is not asked before the session ends, and never twice. -/
def AsksOnce (session : Session) : Prop :=
  (session.closed = false → session.offered = []) ∧ session.offered.length ≤ 1

/-- **The sink is asked at most once.** -/
theorem AsksOnce.perform (h : session.AsksOnce) (call : Call) : (session.perform call).2.AsksOnce := by
  have hperforming := session.performing call
  generalize session.perform call = outcome at hperforming
  cases hperforming with
  | again closed call fault kind => exact h
  | added isOpen snapshot => exact h
  | flushed isOpen output =>
      rw [flush_of_isOpen isOpen]
      exact h
  | early isOpen pending => exact h
  | refused isOpen call ends ready sink attached fault refusal =>
      obtain ⟨-, hoffered, -, -⟩ := readied_of_isOpen isOpen call
      refine ⟨nofun, ?_⟩
      show ((session.readied call).offered ++ [_]).length ≤ 1
      rw [hoffered, h.1 isOpen]
      exact Nat.le_refl 1
  | done isOpen call ends ready output =>
      obtain ⟨-, hoffered, -, -⟩ := readied_of_isOpen isOpen call
      have hlength := (session.readied call).offered_completed
      rw [hoffered, h.1 isOpen] at hlength
      refine ⟨fun hopen => ?_, hlength⟩
      rw [closed_completed] at hopen
      cases hopen

/-! ## Answers -/

/-- **Taking in snapshots and flushing fail** once the session has ended, and only then. -/
theorem failsWith_perform_iff {call : Call} (hcall : call.keepsOpen = true) :
    (FailsWith (· = .state) (session.perform call).1 ↔ session.closed = true) ∧
      ((∃ output, (session.perform call).1 = .ok output) ↔ ¬session.closed = true) := by
  have hperforming := session.performing call
  generalize session.perform call = outcome at hperforming
  cases hperforming with
  | again closed call fault kind =>
      exact ⟨iff_of_true ⟨fault, rfl, decide_eq_true kind⟩ closed, iff_of_false nofun fun h => h closed⟩
  | added isOpen | flushed isOpen =>
      have hopen : ¬session.closed = true := Bool.not_eq_true _ ▸ isOpen
      exact ⟨iff_of_false (FailsWith.not_ok _) hopen, iff_of_true ⟨_, rfl⟩ hopen⟩
  | early => cases hcall
  | refused _ call ends | done _ call ends => exact absurd (hcall.symm.trans ends) nofun

/-- **Finalizing is refused by the session itself**, and changes nothing, if the session has ended or snapshots are
    pending. Where the sink is asked, the session is closed afterwards. -/
theorem finalize_refused_iff :
    FailsWith (· = .state) (session.perform .finalize).1 ∧ (session.perform .finalize).2 = session ↔
      session.closed = true ∨ session.pending ≠ #[] := by
  have hperforming := session.performing .finalize
  generalize session.perform .finalize = outcome at hperforming
  cases hperforming with
  | again closed call fault kind => exact iff_of_true ⟨⟨fault, rfl, decide_eq_true kind⟩, rfl⟩ (.inl closed)
  | early isOpen pending => exact iff_of_true ⟨⟨_, rfl, rfl⟩, rfl⟩ (.inr pending)
  | refused isOpen call ends ready sink attached fault refusal =>
      refine iff_of_false ?_ ?_
      · rintro ⟨-, hsame⟩
        have hclosed : session.closed = true := hsame ▸ rfl
        exact absurd (isOpen.symm.trans hclosed) nofun
      · rintro (hclosed | hpending)
        · exact absurd (isOpen.symm.trans hclosed) nofun
        · exact hpending ready
  | done isOpen call ends ready output =>
      refine iff_of_false ?_ ?_
      · rintro ⟨⟨fault, hreply, -⟩, -⟩
        cases hreply
      · rintro (hclosed | hpending)
        · exact absurd (isOpen.symm.trans hclosed) nofun
        · exact hpending ready

/-- **Finalizing fails with a state fault** if the session has ended, if snapshots are pending or if the sink answers
    with one, and in no other case. -/
theorem failsWith_finalize_iff :
    FailsWith (· = .state) (session.perform .finalize).1 ↔
      session.closed = true ∨ session.pending ≠ #[] ∨
        ∃ sink, session.sink = some sink ∧ FailsWith (· = .state) (sink session.sidecarOf) := by
  have hreply : (session.perform .finalize).1 = session.finalize.1.map fun _ => [] := rfl
  cases hclosed : session.closed with
  | true =>
      rw [hreply, finalize_of_closed hclosed]
      exact iff_of_true ⟨_, rfl, rfl⟩ (.inl rfl)
  | false =>
      rw [or_iff_right Bool.false_ne_true]
      by_cases hpending : session.pending = #[]
      · rw [hreply, finalize_of_flushed hclosed hpending, or_iff_right (not_not_intro hpending)]
        -- the reply is the answer of the sink, if there is one
        cases hsink : session.sink with
        | none => exact iff_of_false (FailsWith.not_ok _) (by rintro ⟨_, ⟨⟩, _⟩)
        | some sink =>
            simp only [Option.some.injEq, exists_eq_left']
            cases sink session.sidecarOf with
            | error fault =>
                show FailsWith _ (.error fault) ↔ _
                rw [FailsWith.error_iff, FailsWith.error_iff]
            | ok done => exact iff_of_false (FailsWith.not_ok _) (FailsWith.not_ok _)
      · rw [hreply, finalize_of_pending hclosed hpending]
        exact iff_of_true ⟨_, rfl, rfl⟩ (.inl hpending)

/-- **A state fault changes nothing**, unless it is the sink's. -/
theorem perform_of_state {call : Call}
    (hsink : ∀ sink sidecar, session.sink = some sink → ¬FailsWith (· = .state) (sink sidecar))
    (h : FailsWith (· = .state) (session.perform call).1) : (session.perform call).2 = session := by
  have hperforming := session.performing call
  generalize session.perform call = outcome at hperforming h
  obtain ⟨fault, hreply, hkind⟩ := h
  cases hperforming with
  | again | early => rfl
  | added | flushed | done => cases hreply
  | refused isOpen call ends ready sink attached other refusal =>
      cases hreply
      exact absurd ⟨fault, refusal, hkind⟩ (hsink sink _ attached)

theorem isOpen_of_ok {call : Call} {output : Bytes} (h : (session.perform call).1 = .ok output) :
    session.closed = false := by
  cases hclosed : session.closed with
  | false => rfl
  | true =>
      obtain ⟨fault, -, hperform⟩ := perform_of_closed hclosed call
      rw [hperform] at h
      cases h

/-- **What an operation yields**: the file header if it is owed, whole blocks and, for a finish, the end marker. -/
theorem yields_blocks {call : Call} {output : Bytes} (hsound : session.writer.context.Sound)
    (hopen : session.closed = false) (h : (session.perform call).1 = .ok output) :
    if call.writes then
      ∃ blocks : List Block, (∀ block ∈ blocks, block.WellFormed) ∧
        output = session.owed ++ blocks.flatMap Block.print ++ call.tail
    else output = [] := by
  obtain ⟨plans, -, hleads⟩ := Writer.leads_writeColumns hsound (.ofSnapshots session.pending.toList)
  have hflush := congrArg Prod.fst (flush_of_isOpen hopen)
  rw [← List.flatMap_map] at hflush
  cases call with
  | add snapshot | finalize =>
      obtain ⟨-, -, houtput⟩ := map_eq_ok.mp h
      exact houtput.symm
  | flush =>
      refine ⟨_, hleads.wellFormed, ?_⟩
      have hreply : session.flush.1 = .ok output := h
      rw [hflush] at hreply
      rw [← Except.ok.inj hreply]
      exact (List.append_nil _).symm
  | finish =>
      obtain ⟨flushed, hreply, -, -, -, hfinish⟩ := finish_of_isOpen hopen
      have hfinished : session.finish.1 = .ok output := h
      rw [hfinish] at hfinished
      obtain ⟨-, -, rfl⟩ := map_eq_ok.mp hfinished
      rw [hflush] at hreply
      rw [← Except.ok.inj hreply]
      exact ⟨_, hleads.wellFormed, rfl⟩

/-! ## Runs -/

/-- What every operation keeps, every sequence of operations keeps. -/
theorem run_invariant (P : Session → Prop) (hstep : ∀ session call, P session → P (session.perform call).2)
    (h : P session) (calls : List Call) : P (session.run calls).2 := by
  induction calls generalizing session with
  | nil => exact h
  | cons call calls ih => exact ih (hstep session call h)

/-- **A property that exactly one kind of event brings about** holds after some operations if it held before them or
    if such an event has occurred. -/
theorem run_iff (P : Session → Prop) (event : Event)
    (hstep : ∀ session call, P (session.perform call).2 ↔ P session ∨ event session call (session.perform call))
    (calls : List Call) : P (session.run calls).2 ↔ P session ∨ session.Occurs calls event := by
  induction calls generalizing session with
  | nil => exact (or_iff_left (not_occurs_nil event)).symm
  | cons call calls ih =>
      rw [run_cons, occurs_cons, ← or_assoc, ← hstep]
      exact ih

theorem occurs_or {calls : List Call} {event other : Event} :
    session.Occurs calls (fun session call outcome => event session call outcome ∨ other session call outcome) ↔
      session.Occurs calls event ∨ session.Occurs calls other := by
  constructor
  · rintro ⟨before, call, after, hcalls, hevent | hevent⟩
    · exact .inl ⟨before, call, after, hcalls, hevent⟩
    · exact .inr ⟨before, call, after, hcalls, hevent⟩
  · rintro (⟨before, call, after, hcalls, hevent⟩ | ⟨before, call, after, hcalls, hevent⟩)
    · exact ⟨before, call, after, hcalls, .inl hevent⟩
    · exact ⟨before, call, after, hcalls, .inr hevent⟩

theorem sink_run (session : Session) (calls : List Call) : (session.run calls).2.sink = session.sink := by
  refine run_invariant (fun after => after.sink = session.sink) ?_ rfl calls
  intro after call hsink
  rw [sink_perform, hsink]

section Memory

variable {calls : List Call}

theorem closed_run_iff (h : session.closed = false) :
    (session.run calls).2.closed = true ↔ session.Occurs calls Ends := by
  rw [run_iff (fun session => session.closed = true) Ends
    (fun session call => (session.performing call).closed_iff), h]
  exact or_iff_right nofun

theorem sidecar_run_iff (h : session.sidecar = none) :
    (session.run calls).2.sidecar.isSome = true ↔ session.Occurs calls Completes := by
  rw [run_iff (fun session => session.sidecar.isSome = true) Completes
    (fun session call => (session.performing call).sidecar_iff), h]
  exact or_iff_right nofun

theorem telemetry_run_iff (h : session.telemetry.sidecar = none) :
    (session.run calls).2.telemetry.sidecar.isSome = true ↔
      session.Occurs calls Completes ∧ session.sink.isSome = true := by
  rw [run_iff (fun session => session.telemetry.sidecar.isSome = true)
    (fun session call outcome => Completes session call outcome ∧ session.sink.isSome = true)
    (fun session call => (session.performing call).telemetry_iff), h, or_iff_right nofun]
  constructor
  · rintro ⟨before, call, after, hcalls, hcompletes, hsink⟩
    rw [sink_run] at hsink
    exact ⟨⟨before, call, after, hcalls, hcompletes⟩, hsink⟩
  · rintro ⟨⟨before, call, after, hcalls, hcompletes⟩, hsink⟩
    refine ⟨before, call, after, hcalls, hcompletes, ?_⟩
    rw [sink_run]
    exact hsink

/-- **An open session owes the file header** until bytes have been yielded. -/
theorem headerWritten_run_iff (hopen : session.closed = false) (howed : session.headerWritten = false)
    (hafter : (session.run calls).2.closed = false) :
    (session.run calls).2.headerWritten = true ↔ session.Occurs calls Yields := by
  have hends : ¬session.Occurs calls Ends := by
    rw [← closed_run_iff hopen, hafter]
    exact nofun
  have hrun : ((session.run calls).2.headerWritten = true ∨ (session.run calls).2.closed = true) ↔
      (session.headerWritten = true ∨ session.closed = true) ∨
        session.Occurs calls fun session call outcome => Yields session call outcome ∨ Ends session call outcome :=
    run_iff (fun session => session.headerWritten = true ∨ session.closed = true) _
      (fun session call => (session.performing call).owes_nothing_iff) calls
  rw [occurs_or, or_iff_left hends, hafter, hopen, howed] at hrun
  simpa only [Bool.false_eq_true, or_false, false_or] using hrun

end Memory

/-- **What an operation yields after others**: the file header leads the bytes that are yielded first. -/
theorem Wrote.output_run {origin : Context} {bytes : Bytes} {taken : List Snapshot}
    (h : session.Wrote origin bytes taken) (howed : session.headerWritten = false) {calls : List Call} {call : Call}
    {output : Bytes} (hreply : ((session.run calls).2.perform call).1 = .ok output) :
    if call.writes then
      ∃ (lead : Bytes) (blocks : List Block),
        (session.Occurs calls Yields → lead = []) ∧ (¬session.Occurs calls Yields → lead = FileHeader.print {}) ∧
        (∀ block ∈ blocks, block.WellFormed) ∧ output = lead ++ blocks.flatMap Block.print ++ call.tail
    else output = [] := by
  have hopen := isOpen_of_ok hreply
  have hwritten := headerWritten_run_iff h.isOpen howed hopen
  obtain ⟨flushed, ⟨plans, recorded, hleads, -⟩, -⟩ := (h.run_of_open calls hopen).recorded
  have houtput := yields_blocks hleads.target_sound hopen hreply
  by_cases hwrites : call.writes = true
  · rw [if_pos hwrites] at houtput ⊢
    obtain ⟨blocks, hwell, rfl⟩ := houtput
    refine ⟨_, blocks, fun hyields => ?_, fun hyields => ?_, hwell, rfl⟩
    · exact if_pos (hwritten.mpr hyields)
    · exact if_neg fun hheader => hyields (hwritten.mp hheader)
  · rw [if_neg hwrites] at houtput ⊢
    exact houtput

theorem asksOnce_run (h : session.offered = []) (calls : List Call) : (session.run calls).2.AsksOnce := by
  refine run_invariant AsksOnce (fun session call h => h.perform call) ⟨fun _ => h, ?_⟩ calls
  rw [h]
  exact Nat.zero_le 1

/-! ## Main result -/

/-- **The law of the life cycle.** Under every valid configuration, for every sink and every sequence of operations:

    - taking in a snapshot and flushing fail, with a state fault, exactly if the session has ended, that is, if
      finalizing or finishing has succeeded or has failed in the sink;
    - finalizing fails with a state fault exactly in that case, if snapshots are pending or if the sink itself answers
      with one; in the first two cases, and in no other, it changes nothing besides;
    - unless the sink itself answers with state faults, no operation that fails with one changes anything;
    - what flushing or finishing yields are whole blocks, behind the file header if nothing has been yielded before,
      and in front of the end marker if the operation is to finish; the other operations yield nothing;
    - the sink is offered at most one sidecar;
    - there is a report exactly if finalizing, on its own or as part of finishing, has succeeded, and the telemetry
      has its name exactly if there is a sink besides. -/
theorem run_lifeCycle (config : Config) (hvalid : config.validate = .ok ()) (sink : Option Sink) (calls : List Call) :
    ∃ start, Session.start config sink = .ok start ∧
      let session := (start.run calls).2
      (∀ call : Call, call.keepsOpen = true →
        (FailsWith (· = .state) (session.perform call).1 ↔ start.Occurs calls Ends) ∧
        ((∃ output, (session.perform call).1 = .ok output) ↔ ¬start.Occurs calls Ends)) ∧
      (FailsWith (· = .state) (session.perform .finalize).1 ↔
        start.Occurs calls Ends ∨ session.pending ≠ #[] ∨
          ∃ each, sink = some each ∧ FailsWith (· = .state) (each session.sidecarOf)) ∧
      (FailsWith (· = .state) (session.perform .finalize).1 ∧ (session.perform .finalize).2 = session ↔
        start.Occurs calls Ends ∨ session.pending ≠ #[]) ∧
      ((∀ each sidecar, sink = some each → ¬FailsWith (· = .state) (each sidecar)) →
        ∀ call, FailsWith (· = .state) (session.perform call).1 → (session.perform call).2 = session) ∧
      (∀ call output, (session.perform call).1 = .ok output →
        if call.writes then
          ∃ (lead : Bytes) (blocks : List Block),
            (start.Occurs calls Yields → lead = []) ∧ (¬start.Occurs calls Yields → lead = FileHeader.print {}) ∧
            (∀ block ∈ blocks, block.WellFormed) ∧ output = lead ++ blocks.flatMap Block.print ++ call.tail
        else output = []) ∧
      session.offered.length ≤ 1 ∧
      (session.sidecar.isSome = true ↔ start.Occurs calls Completes) ∧
      (session.telemetry.sidecar.isSome = true ↔ start.Occurs calls Completes ∧ sink.isSome = true) := by
  obtain ⟨start, hstart, hsink, hwrote⟩ := wrote_start hvalid sink
  refine ⟨start, hstart, ?_⟩
  obtain ⟨⟨⟩, -, hfields⟩ := bind_eq_ok.mp hstart
  have hheader : start.headerWritten = false := Except.ok.inj hfields ▸ rfl
  have hoffered : start.offered = [] := Except.ok.inj hfields ▸ rfl
  have hsidecar : start.sidecar = none := Except.ok.inj hfields ▸ rfl
  have htelemetry : start.telemetry.sidecar = none := Except.ok.inj hfields ▸ rfl
  have hclosed : (start.run calls).2.closed = true ↔ start.Occurs calls Ends := closed_run_iff hwrote.isOpen
  have hkept : (start.run calls).2.sink = sink := (start.sink_run calls).trans hsink
  refine ⟨fun call hcall => ?_, ?_, ?_, fun hnever call => perform_of_state ?_,
    fun call output => hwrote.output_run hheader, (asksOnce_run hoffered calls).2, sidecar_run_iff hsidecar, ?_⟩
  · rw [← hclosed]
    exact failsWith_perform_iff hcall
  · rw [← hclosed, ← hkept]
    exact failsWith_finalize_iff
  · rw [← hclosed]
    exact finalize_refused_iff
  · rw [hkept]
    exact hnever
  · rw [telemetry_run_iff htelemetry, hsink]

/-- **A sink can make finalizing fail with a state fault.** A new session has not ended, and nothing is pending, but its
    sink answers with such a fault, and finalizing passes it on. -/
theorem finalize_passes_state :
    ∃ start, Session.start { runId := "run" } (some fun _ => .error .addAfterFinalize) = .ok start ∧
      let session := (start.run []).2
      FailsWith (· = .state) (session.perform .finalize).1 ∧ ¬start.Occurs [] Ends ∧ session.pending = #[] :=
  ⟨_, rfl, ⟨.addAfterFinalize, rfl, rfl⟩, not_occurs_nil Ends, rfl⟩

/-- The sink refuses after the snapshot has been flushed: the session has ended, without a report, and refuses
    everything from then on. -/
theorem run_lifeCycle_refused :
    ∃ start, Session.start { runId := "run" } (some (Sink.refusing "disk full")) = .ok start ∧
      let calls := [.add loneSnapshot, .flush, .finalize]
      let session := (start.run calls).2
      start.Occurs calls Ends ∧ ¬start.Occurs calls Completes ∧
        FailsWith (· = .state) (session.perform .flush).1 ∧ (session.perform .flush).2 = session ∧
        FailsWith (· = .state) (session.perform .finalize).1 ∧ session.offered.length ≤ 1 := by
  obtain ⟨start, hstart, hcalls, hfinalize, -, hstate, -, honce, hreport, -⟩ := run_lifeCycle { runId := "run" } rfl
    (some (Sink.refusing "disk full")) [.add loneSnapshot, .flush, .finalize]
  have hends : start.Occurs [.add loneSnapshot, .flush, .finalize] Ends := by
    refine ⟨[.add loneSnapshot, .flush], .finalize, [], rfl, .inr ⟨rfl, Sink.refusing "disk full", ?_⟩⟩
    rw [← Except.ok.inj hstart]
    exact ⟨_, .sidecarRefused "disk full", rfl, rfl, rfl, rfl⟩
  have hnever : ∀ each sidecar, some (Sink.refusing "disk full") = some each →
      ¬FailsWith (· = .state) (each sidecar) := by
    rintro _ sidecar ⟨⟩ ⟨fault, ⟨⟩, hkind⟩
    cases hkind
  have hsame := hstate hnever
  have hflush := (hcalls .flush rfl).1.mpr hends
  have hnone : (start.run [.add loneSnapshot, .flush, .finalize]).2.sidecar = none := by
    rw [← Except.ok.inj hstart]
    rfl
  refine ⟨start, hstart, hends, ?_, hflush, hsame .flush hflush, hfinalize.mpr (.inl hends), honce⟩
  rw [← hreport, hnone]
  exact nofun

end Session
end SnapshotArchive

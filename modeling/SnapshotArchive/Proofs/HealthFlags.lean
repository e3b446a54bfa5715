import Mathlib.Computability.Language
import SnapshotArchive.Proofs.Ending
import SnapshotArchive.Proofs.Watching

/-!
# `Proofs.HealthFlags` — what the flags of an archive's blocks look like

A reader recomputes nothing about the health of a column; it trusts the flags in the block headers. This file
says what a session writes there, over all flushes and however the session ends. The flags of each monitored
column spell the beginning of a word of `healthWords`, quarantined blocks have the column's fallback codec, noise
is quarantined, and the blocks of the plain columns have no flags.

The grammar is a matter of the monitor alone (`Monitor.Emits.grammar`, by the moves of `Proofs.Watching`). The rest
is a relation between the writer before and after (`Writer.Writes`) that joins up over chunks, over flushes and
over whole sessions.

## Contents
- **The grammar.** `quarantineWords`, `healthWords`; `Monitor.Emits` and `Monitor.Emits.grammar`.
- **Blocks.** `Block.RoutedFor`, `flagsOf`.
- **Writers.** `Writer.Writes`; `Writer.writes_writeChunk`, `Writer.writes_writeChunks`.
- **Sessions.** `Session.Sent`, kept by every operation; `Session.run_healthFlags`.
-/

namespace SnapshotArchive

open Computability

/-! ## The grammar -/

/-- The flags of healthy blocks and of the one quarantine that ends them. -/
def quarantineWords : Language UInt8 :=
  {[0]}∗ * {[anomalyStart ||| quarantined]} * {[anomalyMid ||| quarantined]}∗ * {[anomalyEnd]}

/-- The flags of a column whose quarantines have all ended. -/
def healthWords : Language UInt8 := quarantineWords∗

/-- The flags from inside a quarantine on. -/
def closingWords : Language UInt8 :=
  {[anomalyMid ||| quarantined]}∗ * ({[anomalyEnd]} * healthWords)

/-- Healthy flags that lead to a quarantine at some time. -/
def openWords : Language UInt8 := {[0]}∗ * ({[anomalyStart ||| quarantined]} * closingWords)

theorem mem_healthWords_of_mem_openWords {word : List UInt8} (h : word ∈ openWords) : word ∈ healthWords := by
  have hsplit : openWords = quarantineWords * healthWords := by
    unfold openWords closingWords quarantineWords
    simp only [mul_assoc]
  rw [hsplit] at h
  have hle : quarantineWords * healthWords ≤ healthWords := mul_kstar_le_kstar
  exact hle h

section Words

variable {flag : UInt8} {word : List UInt8} {words : Language UInt8}

theorem cons_mem_mul (h : word ∈ words) : flag :: word ∈ ({[flag]} : Language UInt8) * words :=
  Language.append_mem_mul (a := [flag]) rfl h

/-- A word may be put behind no repetitions at all. -/
theorem mem_kstar_mul (h : word ∈ words) : word ∈ ({[flag]} : Language UInt8)∗ * words :=
  Language.append_mem_mul (Language.nil_mem_kstar _) h

/-- One more repetition at the front. -/
theorem cons_mem_kstar_mul (h : word ∈ ({[flag]} : Language UInt8)∗ * words) :
    flag :: word ∈ ({[flag]} : Language UInt8)∗ * words := by
  have hcons : flag :: word ∈ ({[flag]} : Language UInt8) * ({[flag]}∗ * words) := cons_mem_mul h
  rw [← mul_assoc] at hcons
  have hle : ({[flag]} : Language UInt8) * {[flag]}∗ * words ≤ {[flag]}∗ * words :=
    mul_le_mul_left mul_kstar_le_kstar words
  exact hle hcons

end Words

/-- Every quarantine can come to an end. -/
theorem singleton_mem_closingWords : [anomalyEnd] ∈ closingWords :=
  mem_kstar_mul (cons_mem_mul (Language.nil_mem_kstar _))

theorem pair_mem_openWords : [anomalyStart ||| quarantined, anomalyEnd] ∈ openWords :=
  mem_kstar_mul (cons_mem_mul singleton_mem_closingWords)

namespace Monitor

/-- A monitor takes in blocks, which get these flags. -/
inductive Emits : Monitor → List UInt8 → Monitor → Prop where
  | nil (monitor : Monitor) : Emits monitor [] monitor
  | cons {monitor target : Monitor} {flags : List UInt8} (block : Sighting) :
      Emits (monitor.observe block).2 flags target →
      Emits monitor ((monitor.observe block).1.flags :: flags) target

namespace Emits

variable {monitor middle target : Monitor} {flags others : List UInt8}

theorem append (h : Emits monitor flags middle) (h' : Emits middle others target) :
    Emits monitor (flags ++ others) target := by
  induction h with
  | nil => exact h'
  | cons block _ ih => exact .cons block (ih h')

/-- **Flags follow the grammar**, from a healthy column and from one in quarantine. -/
theorem grammar (h : Emits monitor flags target) :
    (monitor.phase.isQuarantined = false → ∃ word ∈ openWords, flags <+: word) ∧
      (monitor.phase.isQuarantined = true → ∃ word ∈ closingWords, flags <+: word) := by
  induction h with
  | nil =>
      exact ⟨fun _ => ⟨_, pair_mem_openWords, List.nil_prefix⟩,
        fun _ => ⟨_, singleton_mem_closingWords, List.nil_prefix⟩⟩
  | @cons monitor target flags block hrest ih =>
      obtain ⟨ihhealthy, ihquarantined⟩ := ih
      cases monitor.move block with
      | passes before _ hflags after =>
          rw [before, hflags]
          rw [after] at ihhealthy
          refine ⟨fun _ => ?_, nofun⟩
          obtain ⟨word, hword, hprefix⟩ := ihhealthy rfl
          exact ⟨0 :: word, cons_mem_kstar_mul hword, List.cons_prefix_cons.mpr ⟨rfl, hprefix⟩⟩
      | enters segment before _ hflags after =>
          rw [before, hflags]
          rw [after] at ihquarantined
          refine ⟨fun _ => ?_, nofun⟩
          obtain ⟨word, hword, hprefix⟩ := ihquarantined rfl
          exact ⟨_ :: word, mem_kstar_mul (cons_mem_mul hword), List.cons_prefix_cons.mpr ⟨rfl, hprefix⟩⟩
      | stays _ _ _ _ before _ _ hflags after =>
          rw [before, hflags]
          rw [after] at ihquarantined
          refine ⟨nofun, fun _ => ?_⟩
          obtain ⟨word, hword, hprefix⟩ := ihquarantined rfl
          exact ⟨_ :: word, cons_mem_kstar_mul hword, List.cons_prefix_cons.mpr ⟨rfl, hprefix⟩⟩
      | leaves _ _ _ before _ _ hflags after =>
          rw [before, hflags]
          rw [after] at ihhealthy
          refine ⟨nofun, fun _ => ?_⟩
          obtain ⟨word, hword, hprefix⟩ := ihhealthy rfl
          -- the column is as healthy as at its beginning
          have hmore := mem_healthWords_of_mem_openWords hword
          exact ⟨_ :: word, mem_kstar_mul (cons_mem_mul hmore), List.cons_prefix_cons.mpr ⟨rfl, hprefix⟩⟩

end Emits

end Monitor

/-! ## Blocks -/

/-- What the header of a block says about the raw chunk in it. -/
structure Block.RoutedFor (block : Block) (chunk : Column × List Int64) : Prop where
  column : block.header.column = chunk.1
  /-- Quarantined timestamps have the fallback codec of their column, -/
  time : chunk.1 = .time → hasFlag block.header.flags quarantined = true → block.header.codec? = some .dodVarint
  /-- and so have quarantined prices. -/
  value : chunk.1 = .value → hasFlag block.header.flags quarantined = true →
    block.header.codec? = some .varintDelta
  /-- Noise in a monitored column is quarantined. -/
  noise : chunk.1.isMonitored = true → (Metrics.ofValues chunk.2).isHighEntropy = true →
    hasFlag block.header.flags quarantined = true
  /-- Plain columns know neither flags nor codecs. -/
  plain : chunk.1.isMonitored = false → block.header.flags = 0 ∧ block.header.codec? = some .varintDelta

/-- The flags of a column's blocks, in order. -/
def flagsOf (column : Column) (blocks : List Block) : List UInt8 :=
  (blocks.filter fun block => block.header.column = column).map fun block => block.header.flags

theorem flagsOf_append (column : Column) (blocks others : List Block) :
    flagsOf column (blocks ++ others) = flagsOf column blocks ++ flagsOf column others := by
  unfold flagsOf
  rw [List.filter_append, List.map_append]

theorem flagsOf_singleton (column : Column) (block : Block) :
    flagsOf column [block] = if block.header.column = column then [block.header.flags] else [] := by
  unfold flagsOf
  by_cases hcolumn : block.header.column = column
  · rw [if_pos hcolumn, List.filter_singleton, decide_eq_true hcolumn]
    rfl
  · rw [if_neg hcolumn, List.filter_singleton, decide_eq_false hcolumn]
    rfl

/-! ## Writers -/

namespace Writer

/-- A writer writes chunks as blocks. The blocks are read as the chunks, their headers suit them, and the monitor of
    each monitored column has emitted the flags. -/
structure Writes (origin : Writer) (chunks : List (Column × List Int64)) (blocks : List Block)
    (target : Writer) : Prop where
  trace : ∃ plans, plans.map BlockPlan.decoded = chunks ∧ origin.context.Leads plans blocks target.context
  routed : List.Forall₂ Block.RoutedFor blocks chunks
  emitted : ∀ column, column.isMonitored = true →
    (origin.monitor column).Emits (flagsOf column blocks) (target.monitor column)

namespace Writes

variable {origin middle target : Writer} {chunks others : List (Column × List Int64)} {blocks more : List Block}

theorem nil (h : origin.context.Sound) : origin.Writes [] [] origin where
  trace := ⟨[], rfl, Context.Leads.nil h⟩
  routed := .nil
  emitted := fun column _ => .nil (origin.monitor column)

theorem sound (h : origin.Writes chunks blocks target) : target.context.Sound := by
  obtain ⟨_, -, hleads⟩ := h.trace
  exact hleads.target_sound

theorem append (h : origin.Writes chunks blocks middle) (h' : middle.Writes others more target) :
    origin.Writes (chunks ++ others) (blocks ++ more) target where
  trace := by
    obtain ⟨plans, hplans, hleads⟩ := h.trace
    obtain ⟨plans', hplans', hleads'⟩ := h'.trace
    refine ⟨plans ++ plans', ?_, hleads.append hleads'⟩
    rw [List.map_append, hplans, hplans']
  routed := List.rel_append h.routed h'.routed
  emitted := by
    intro column hmonitored
    rw [flagsOf_append]
    exact (h.emitted column hmonitored).append (h'.emitted column hmonitored)

end Writes

theorem monitor_setMonitor (writer : Writer) {column other : Column} (monitor : Monitor)
    (hcolumn : column.isMonitored = true) (hother : other.isMonitored = true) :
    (writer.setMonitor column monitor).monitor other = if column = other then monitor else writer.monitor other := by
  cases column <;> cases hcolumn <;> cases other <;> cases hother <;> rfl

section Monitored

variable (writer : Writer) (column : Column) (values : List Int64)

/-- The header of a monitored chunk. -/
theorem routedFor_writeMonitored (hmonitored : column.isMonitored = true) :
    (writer.writeMonitored column values).1.block.RoutedFor (column, values) := by
  obtain ⟨codec, flags, hcodec, hblock, -⟩ := writer.writeMonitored_eq_writeBlock column values
  have hfallback (hflag : hasFlag flags quarantined = true) :
      (writer.context.writeBlock column codec flags values).1.header.codec? = some column.fallback := by
    rw [hflag, if_pos rfl] at hcodec
    exact (Codec.ofId?_id codec).trans (congrArg some hcodec)
  refine ⟨rfl, ?_, ?_, ?_, ?_⟩
  · rintro ⟨⟩ hflag
    rw [hblock] at hflag ⊢
    exact hfallback hflag
  · rintro ⟨⟩ hflag
    rw [hblock] at hflag ⊢
    exact hfallback hflag
  · intro _ hnoise
    have hroute : (writer.monitor column).routeOf (writer.sighting column values) = .quarantine .entropyGate :=
      Monitor.routeOf_of_isHighEntropy hnoise
    rw [(writer.writeMonitored_eq_observe column values).1, Monitor.observe, Monitor.hasFlag_update]
    show ((writer.monitor column).routeOf (writer.sighting column values)).isQuarantine = true
    rw [hroute]
    rfl
  · intro hplain
    rw [hmonitored] at hplain
    cases hplain

theorem writes_writeMonitored (h : writer.context.Sound) (hmonitored : column.isMonitored = true)
    (hlength : values.length ≤ maxBlockItems) :
    writer.Writes [(column, values)] [(writer.writeMonitored column values).1.block]
      (writer.writeMonitored column values).2 := by
  obtain ⟨plan, hplan, hleads⟩ := leads_writeMonitored h column hlength
  obtain ⟨hflags, hnext⟩ := writer.writeMonitored_eq_observe column values
  refine ⟨⟨[plan], congrArg (fun chunk => [chunk]) hplan, hleads⟩,
    .cons (writer.routedFor_writeMonitored column values hmonitored) .nil, ?_⟩
  intro other hother
  rw [hnext, monitor_setMonitor _ _ hmonitored hother, flagsOf_singleton]
  show Monitor.Emits _ (if column = other then _ else _) _
  by_cases hcolumn : column = other
  · rw [if_pos hcolumn, if_pos hcolumn, hflags, ← hcolumn]
    exact .cons _ (.nil _)
  · -- the other monitor sees nothing of this block
    rw [if_neg hcolumn, if_neg hcolumn]
    exact .nil _

end Monitored

theorem writes_writePlain {writer : Writer} (h : writer.context.Sound) {column : Column}
    (hplain : column.isMonitored = false) {values : List Int64} (hlength : values.length ≤ maxBlockItems) :
    writer.Writes [(column, values)] [(writePlain column values).block] writer := by
  obtain ⟨plan, hplan, hleads⟩ := leads_writePlain h hplain hlength
  refine ⟨⟨[plan], congrArg (fun chunk => [chunk]) hplan, hleads⟩, .cons ⟨rfl, ?_, ?_, ?_, ?_⟩ .nil, ?_⟩
  · rintro ⟨⟩
    cases hplain
  · rintro ⟨⟩
    cases hplain
  · intro hmonitored
    rw [hplain] at hmonitored
    cases hmonitored
  · intro _
    exact ⟨rfl, rfl⟩
  · intro other hother
    have hcolumn : column ≠ other := by
      rintro rfl
      rw [hplain] at hother
      cases hother
    rw [flagsOf_singleton, show (writePlain column values).block.header.column = column from rfl,
      if_neg hcolumn]
    exact .nil _

theorem writes_writeChunk {writer : Writer} (h : writer.context.Sound) (column : Column) {values : List Int64}
    (hlength : values.length ≤ maxBlockItems) :
    writer.Writes [(column, values)] [(writer.writeChunk column values).1.block]
      (writer.writeChunk column values).2 := by
  unfold writeChunk
  cases hmonitored : column.isMonitored with
  | true => exact writer.writes_writeMonitored column values h hmonitored hlength
  | false => exact writes_writePlain h hmonitored hlength

/-- **Chunks are written one after another.** -/
theorem writes_writeChunks {writer : Writer} (h : writer.context.Sound) (chunks : List (Column × List Int64))
    (hlength : ∀ chunk ∈ chunks, chunk.2.length ≤ maxBlockItems) :
    writer.Writes chunks ((writer.writeChunks chunks).1.map Written.block) (writer.writeChunks chunks).2 := by
  induction chunks generalizing writer with
  | nil => exact Writes.nil h
  | cons chunk chunks ih =>
      obtain ⟨column, values⟩ := chunk
      have hfirst := writes_writeChunk h column (hlength _ List.mem_cons_self)
      have hrest := ih hfirst.sound (fun other hother => hlength other (List.mem_cons_of_mem _ hother))
      exact hfirst.append hrest

end Writer

/-! ## Sessions -/

/-- The bytes are those of an archive but for the missing ones at their end, and the writer has got to its present
    state by writing the archive's blocks. -/
def Leaves (origin target : Writer) (bytes missing : Bytes) : Prop :=
  ∃ chunks blocks, origin.Writes chunks blocks target ∧
    bytes ++ missing = Archive.print { flags := fieldwiseTimestamps, blocks }

/-- What may be missing from an archive: nothing, its end marker, or everything if there are no blocks. -/
def missingEnds : List Bytes := [[], [endMarker], FileHeader.print {} ++ [endMarker]]

namespace Session

/-- **The invariant of a session**, open or closed: its bytes are those of an archive but for the end. While it is
    open, only the end marker and a file header that is still owed are missing. -/
def Sent (session : Session) (origin : Writer) (bytes : Bytes) : Prop :=
  ∃ target missing, Leaves origin target bytes missing ∧ missing ∈ missingEnds ∧
    (session.closed = false → target = session.writer ∧ missing = session.owed ++ [endMarker])

variable {session : Session} {origin : Writer} {bytes : Bytes}

theorem owed_mem_missingEnds (session : Session) : session.owed ++ [endMarker] ∈ missingEnds := by
  unfold owed
  cases session.headerWritten <;> simp [missingEnds]

/-- An open session stands where its writer does. -/
theorem Sent.leaves (h : session.Sent origin bytes) (hopen : session.closed = false) :
    Leaves origin session.writer bytes (session.owed ++ [endMarker]) := by
  obtain ⟨target, missing, hleaves, -, hwriter⟩ := h
  obtain ⟨rfl, rfl⟩ := hwriter hopen
  exact hleaves

/-- A session that closes has nothing to add. -/
theorem Sent.close (h : session.Sent origin bytes) {after : Session} (hclosed : after.closed = true) :
    after.Sent origin bytes := by
  obtain ⟨target, missing, hleaves, hmissing, -⟩ := h
  refine ⟨target, missing, hleaves, hmissing, ?_⟩
  intro hopen
  rw [hclosed] at hopen
  cases hopen

theorem sent_start (config : Config) (sink : Option Sink) :
    (fresh config sink).Sent (initialWriter config) [] := by
  refine ⟨initialWriter config, FileHeader.print {} ++ [endMarker],
    ⟨[], [], Writer.Writes.nil (sound_initialWriter config), rfl⟩, by simp [missingEnds], ?_⟩
  intro _
  exact ⟨rfl, rfl⟩

theorem Sent.add (h : session.Sent origin bytes) (hopen : session.closed = false) (snapshot : Snapshot) :
    (session.add snapshot).2.Sent origin bytes := by
  rw [add_of_isOpen hopen]
  refine ⟨_, _, h.leaves hopen, owed_mem_missingEnds _, ?_⟩
  intro _
  exact ⟨rfl, rfl⟩

/-- **A flush sends the blocks of the pending snapshots.** -/
theorem Sent.leaves_flush (h : session.Sent origin bytes) (hopen : session.closed = false) :
    ∃ output, session.flush.1 = .ok output ∧
      Leaves origin session.flush.2.writer (bytes ++ output) [endMarker] := by
  obtain ⟨chunks, blocks, hwrites, hbytes⟩ := h.leaves hopen
  have hmore := Writer.writes_writeChunks hwrites.sound
    (Writer.chunksOf (.ofSnapshots session.pending.toList)) (fun _ hmem => Writer.length_le_of_mem_chunksOf hmem)
  rw [← List.append_assoc] at hbytes
  have hsofar : bytes ++ session.owed = FileHeader.print {} ++ blocks.flatMap Block.print :=
    List.append_cancel_right hbytes
  rw [flush_of_isOpen hopen]
  refine ⟨_, rfl, _, _, hwrites.append hmore, ?_⟩
  rw [← List.append_assoc, hsofar]
  unfold Archive.print
  rw [List.flatMap_append, List.flatMap_map, ← List.append_assoc]
  rfl

theorem Sent.flush (h : session.Sent origin bytes) (hopen : session.closed = false) :
    ∃ output, session.flush.1 = .ok output ∧ session.flush.2.Sent origin (bytes ++ output) := by
  obtain ⟨output, hreply, hleaves⟩ := h.leaves_flush hopen
  refine ⟨output, hreply, _, _, hleaves, by simp [missingEnds], ?_⟩
  rw [flush_of_isOpen hopen]
  intro _
  exact ⟨rfl, rfl⟩

/-- Finalizing writes nothing, and an end that the sink refuses is an end all the same. -/
theorem Sent.finalize (h : session.Sent origin bytes) : session.finalize.2.Sent origin bytes := by
  have hfinalizing := session.finalizing
  generalize session.finalize = reply at hfinalizing
  cases hfinalizing with
  | again | early => exact h
  | refused => exact h.close rfl
  | done _ _ after hafter => exact h.close hafter

/-- Finishing sends the blocks of the pending snapshots with the end marker, or nothing. -/
theorem Sent.finish (h : session.Sent origin bytes) :
    session.finish.2.Sent origin (bytes ++ written [session.finish.1]) := by
  have hfinishing := session.finishing
  generalize session.finish = reply at hfinishing
  cases hfinishing with
  | again =>
      show session.Sent origin (bytes ++ [])
      rwa [List.append_nil]
  | refused =>
      show session.flush.2.offering.Sent origin (bytes ++ [])
      rw [List.append_nil]
      exact h.close rfl
  | done hopen output hreply after hafter =>
      obtain ⟨output', hreply', chunks, blocks, hwrites, hbytes⟩ := h.leaves_flush hopen
      rw [hreply] at hreply'
      cases hreply'
      refine ⟨_, [], ⟨chunks, blocks, hwrites, ?_⟩, by simp [missingEnds], ?_⟩
      · show bytes ++ (output ++ [endMarker] ++ []) ++ [] = _
        rw [List.append_nil, List.append_nil, ← List.append_assoc]
        exact hbytes
      · intro hopen
        rw [hafter] at hopen
        cases hopen

/-- **Every operation keeps the invariant.** -/
theorem Sent.perform (h : session.Sent origin bytes) (call : Call) :
    (session.perform call).2.Sent origin (bytes ++ written [(session.perform call).1]) := by
  cases hclosed : session.closed with
  | true =>
      obtain ⟨fault, -, hperform⟩ := perform_of_closed hclosed call
      rw [hperform, show written [.error fault] = [] from rfl, List.append_nil]
      exact h
  | false =>
      cases call with
      | add snapshot =>
          have hreply : (session.perform (.add snapshot)).1 = .ok [] := by
            show (session.add snapshot).1.map _ = _
            rw [add_of_isOpen hclosed]
            rfl
          rw [hreply, show written [.ok []] = [] from rfl, List.append_nil]
          exact h.add hclosed snapshot
      | flush =>
          obtain ⟨output, hreply, hsent⟩ := h.flush hclosed
          have hwritten : written [(session.perform .flush).1] = output := by
            show written [session.flush.1] = output
            rw [hreply]
            exact List.append_nil output
          rw [hwritten]
          exact hsent
      | finalize =>
          have hwritten : written [(session.perform .finalize).1] = [] := by
            show written [session.finalize.1.map fun _ => []] = []
            cases session.finalize.1 <;> rfl
          rw [hwritten, List.append_nil]
          exact h.finalize
      | finish => exact h.finish

/-- **Every sequence of operations keeps the invariant.** -/
theorem Sent.run (h : session.Sent origin bytes) (calls : List Call) :
    (session.run calls).2.Sent origin (bytes ++ written (session.run calls).1) := by
  induction calls generalizing session bytes with
  | nil =>
      show session.Sent origin (bytes ++ [])
      rw [List.append_nil]
      exact h
  | cons call calls ih =>
      have hrest := ih (h.perform call)
      rw [List.append_assoc, ← written_append] at hrest
      exact hrest

/-! ## Main result -/

/-- **What the flags of a session's blocks look like.** Under every valid configuration, for every sink and every
    sequence of operations, the bytes of all replies are those of an archive but for an end that may still be
    missing. In this archive every block suits the raw chunk that is read from it, and the flags of each monitored
    column, over all flushes, begin a word of the grammar. -/
theorem run_healthFlags (config : Config) (hvalid : config.validate = .ok ()) (sink : Option Sink)
    (calls : List Call) :
    ∃ session, start config sink = .ok session ∧
      ∃ missing ∈ missingEnds, ∃ blocks chunks,
        parseArchiveBlocks (written (session.run calls).1 ++ missing) = .ok (place FileHeader.size blocks) ∧
        (Context.withDictionary.readBlocks (place FileHeader.size blocks)).map (·.1) = .ok chunks ∧
        List.Forall₂ Block.RoutedFor blocks chunks ∧
        ∀ column, column = .time ∨ column = .value →
          ∃ word ∈ healthWords, flagsOf column blocks <+: word := by
  refine ⟨fresh config sink, start_of_valid hvalid sink, ?_⟩
  obtain ⟨target, missing, ⟨chunks, blocks, hwrites, hbytes⟩, hmissing, -⟩ := (sent_start config sink).run calls
  obtain ⟨plans, hplans, hleads⟩ := hwrites.trace
  refine ⟨missing, hmissing, blocks, chunks, ?_, ?_, hwrites.routed, ?_⟩
  · rw [List.nil_append] at hbytes
    have hparse := parseArchive_print { flags := fieldwiseTimestamps, blocks } hleads.wellFormed
    rw [hbytes]
    exact map_eq_ok.mpr ⟨_, hparse, rfl⟩
  · have hread := (hleads.read FileHeader.size).1
    rw [counterpart_initialWriter] at hread
    rw [hread, ← hplans]
    rfl
  · intro column hcolumn
    have hmonitored : column.isMonitored = true := by rcases hcolumn with rfl | rfl <;> rfl
    have hnew : ((initialWriter config).monitor column).phase.isQuarantined = false := by
      rcases hcolumn with rfl | rfl <;> rfl
    obtain ⟨word, hword, hprefix⟩ := (hwrites.emitted column hmonitored).grammar.1 hnew
    exact ⟨word, mem_healthWords_of_mem_openWords hword, hprefix⟩

/-- Timestamps without any order. -/
def noisyTimes : List Int64 := [3, 100, 7, 250, 30, 900, 4, 555]

/-- A session whose timestamps are noise. -/
def noisyCalls : List Call :=
  noisyTimes.map (fun timestamp => .add (.ofEntries timestamp [(1, ⟨500, 1⟩)])) ++ [.flush, .finish]

theorem run_noisyCalls :
    (Metrics.ofValues noisyTimes).isHighEntropy = true ∧
      ∃ session, start { runId := "run" } none = .ok session ∧
        ∃ missing ∈ missingEnds, ∃ blocks chunks,
          parseArchiveBlocks (written (session.run noisyCalls).1 ++ missing)
              = .ok (place FileHeader.size blocks) ∧
            List.Forall₂ Block.RoutedFor blocks chunks ∧
            ∃ word ∈ healthWords, flagsOf .time blocks <+: word := by
  refine ⟨by decide +kernel, ?_⟩
  obtain ⟨session, hstart, missing, hmissing, blocks, chunks, hparse, -, hrouted, hwords⟩ :=
    run_healthFlags { runId := "run" } rfl none noisyCalls
  exact ⟨session, hstart, missing, hmissing, blocks, chunks, hparse, hrouted, hwords .time (.inl rfl)⟩

end Session

end SnapshotArchive

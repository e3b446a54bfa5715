import SnapshotArchive.Proofs.Replay
import SnapshotArchive.Proofs.Segments
import SnapshotArchive.Summary

/-!
# `Proofs.Accounts` — the totals, the report and the archive agree

Four records are kept of one session: the flags in the archive, the totals in the telemetry, the segments in the
report, and the summary that is made of the archive later. They are kept in four places, and this file proves that
they say the same.

The totals of a column are an account of its blocks (`Tally.Accounts`), one block at a time; the accounts of both
columns add up to one of all monitored blocks. Plain blocks have no flags, so that a summary of the whole archive
counts the same quarantined blocks. The segments follow the flags by `Proofs.Segments`.

## Contents
- **Accounts.** `Tally.Accounts`; `Accounts.record`, `Accounts.add`, `Accounts.perm`.
- **Writers.** `columnBlocks`, `monitoredBlocks`; `Writer.Accounted`, kept by `Writer.accounted_writeChunks`.
- **Summaries.** `verify_print`, what a summary says of the blocks that were printed.
- **Main result.** `Session.run_accounts`.
-/

namespace SnapshotArchive

/-! ## Accounts -/

/-- The tally counts these blocks, by what their headers say. -/
structure Tally.Accounts (tally : Tally) (blocks : List Block) : Prop where
  total : tally.totalBlocks = blocks.length
  quarantine : tally.quarantineBlocks = blocks.countP fun block => hasFlag block.header.flags quarantined
  input : tally.coreInput + tally.quarantineInput
    = rawValueSize * (blocks.map fun block => block.header.itemCount.toNat).sum
  output : tally.coreOutput + tally.quarantineOutput
    = (blocks.map fun block => BlockHeader.size + block.header.payloadSize.toNat).sum

namespace Tally.Accounts

variable {tally other : Tally} {blocks more : List Block}

theorem empty : Tally.Accounts {} [] := ⟨rfl, rfl, rfl, rfl⟩

/-- **A block is entered** under the path that its flag tells. -/
theorem record (h : tally.Accounts blocks) {block : Block} {path : Path} {input output : Nat}
    (hpath : hasFlag block.header.flags quarantined = decide (path = .quarantine))
    (hinput : input = rawValueSize * block.header.itemCount.toNat)
    (houtput : output = BlockHeader.size + block.header.payloadSize.toNat) :
    (tally.record path input output).Accounts (blocks ++ [block]) := by
  obtain ⟨htotal, hquarantined, hin, hout⟩ := h
  unfold totalBlocks at htotal
  have hitems : rawValueSize * ((blocks ++ [block]).map fun each => each.header.itemCount.toNat).sum
      = rawValueSize * (blocks.map fun each => each.header.itemCount.toNat).sum + input := by
    rw [List.map_append, List.sum_append_nat, Nat.mul_add, hinput]
    rfl
  have hsizes : ((blocks ++ [block]).map fun each => BlockHeader.size + each.header.payloadSize.toNat).sum
      = (blocks.map fun each => BlockHeader.size + each.header.payloadSize.toNat).sum + output := by
    rw [List.map_append, List.sum_append_nat, houtput]
    rfl
  have hcount : (blocks ++ [block]).countP (fun each => hasFlag each.header.flags SnapshotArchive.quarantined)
      = (blocks.countP fun each => hasFlag each.header.flags SnapshotArchive.quarantined)
        + (decide (path = .quarantine)).toNat := by
    rw [List.countP_append, List.countP_singleton, hpath]
    cases decide (path = .quarantine) <;> rfl
  constructor
  · rw [List.length_append, List.length_singleton, ← htotal]
    unfold totalBlocks
    cases path with
    | core => exact Nat.add_right_comm _ _ _
    | quarantine => exact (Nat.add_assoc _ _ _).symm
  · rw [hcount, ← hquarantined]
    cases path <;> rfl
  · rw [hitems, ← hin]
    cases path with
    | core => exact Nat.add_right_comm _ _ _
    | quarantine => exact (Nat.add_assoc _ _ _).symm
  · rw [hsizes, ← hout]
    cases path with
    | core => exact Nat.add_right_comm _ _ _
    | quarantine => exact (Nat.add_assoc _ _ _).symm

/-- **Accounts are added up.** -/
theorem add (h : tally.Accounts blocks) (h' : other.Accounts more) :
    (tally.add other).Accounts (blocks ++ more) := by
  obtain ⟨htotal, hquarantined, hin, hout⟩ := h
  obtain ⟨htotal', hquarantined', hin', hout'⟩ := h'
  unfold totalBlocks at htotal htotal'
  constructor
  · rw [List.length_append, ← htotal, ← htotal']
    exact Nat.add_add_add_comm _ _ _ _
  · rw [List.countP_append, ← hquarantined, ← hquarantined']
    rfl
  · rw [List.map_append, List.sum_append_nat, Nat.mul_add, ← hin, ← hin']
    exact Nat.add_add_add_comm _ _ _ _
  · rw [List.map_append, List.sum_append_nat, ← hout, ← hout']
    exact Nat.add_add_add_comm _ _ _ _

/-- The order of the blocks is of no account. -/
theorem perm (h : tally.Accounts blocks) (hperm : blocks.Perm more) : tally.Accounts more where
  total := h.total.trans hperm.length_eq
  quarantine := h.quarantine.trans (hperm.countP_eq _)
  input := by
    rw [h.input]
    exact congrArg _ (hperm.map _).sum_nat
  output := by
    rw [h.output]
    exact (hperm.map _).sum_nat

end Tally.Accounts

/-! ## Writers -/

/-- The blocks of a column, in order. -/
def columnBlocks (column : Column) (blocks : List Block) : List Block :=
  blocks.filter fun block => block.header.column = column

/-- The blocks that have passed a monitor. -/
def monitoredBlocks (blocks : List Block) : List Block :=
  blocks.filter fun block => block.header.column.isMonitored

theorem columnBlocks_concat (column : Column) (blocks : List Block) (last : Block) :
    columnBlocks column (blocks ++ [last])
      = columnBlocks column blocks ++ if last.header.column = column then [last] else [] := by
  unfold columnBlocks
  rw [List.filter_append, List.filter_singleton]
  by_cases hcolumn : last.header.column = column
  · rw [if_pos hcolumn, decide_eq_true hcolumn]
    rfl
  · rw [if_neg hcolumn, decide_eq_false hcolumn]
    rfl

/-- There are two monitored columns. -/
theorem perm_monitoredBlocks (blocks : List Block) :
    (columnBlocks .time blocks ++ columnBlocks .value blocks).Perm (monitoredBlocks blocks) := by
  have hsplit := List.filter_append_perm (fun block => decide (block.header.column = .time))
    (monitoredBlocks blocks)
  have htime : (monitoredBlocks blocks).filter (fun block => decide (block.header.column = .time))
      = columnBlocks .time blocks := by
    unfold monitoredBlocks columnBlocks
    rw [List.filter_filter]
    refine List.filter_congr fun block _ => ?_
    cases block.header.column <;> rfl
  have hvalue : (monitoredBlocks blocks).filter (fun block => !decide (block.header.column = .time))
      = columnBlocks .value blocks := by
    unfold monitoredBlocks columnBlocks
    rw [List.filter_filter]
    refine List.filter_congr fun block _ => ?_
    cases block.header.column <;> rfl
  rwa [htime, hvalue] at hsplit

namespace Writer

/-- The totals of each monitored column account for its blocks. -/
def Accounted (writer : Writer) (blocks : List Block) : Prop :=
  ∀ column, column.isMonitored = true → (writer.monitor column).tally.Accounts (columnBlocks column blocks)

variable {writer : Writer} {blocks : List Block}

/-- **A monitored block is entered into the account of its column.** -/
theorem accounted_writeMonitored (h : writer.Accounted blocks) {column : Column} {values : List Int64}
    (hmonitored : column.isMonitored = true)
    (hwell : (writer.writeMonitored column values).1.block.WellFormed)
    (hlength : values.length ≤ maxBlockItems) :
    (writer.writeMonitored column values).2.Accounted
      (blocks ++ [(writer.writeMonitored column values).1.block]) := by
  intro other hother
  have hobserve := writer.writeMonitored_eq_observe column values
  generalize hblock : (writer.writeMonitored column values).1.block = block at hwell hobserve ⊢
  rw [hobserve.2, monitor_setMonitor _ _ hmonitored hother, columnBlocks_concat]
  have hcolumn : block.header.column = column := by
    rw [← hblock]
    rfl
  rw [hcolumn]
  by_cases hsame : column = other
  · subst hsame
    rw [if_pos rfl, if_pos rfl]
    have hitems : block.header.itemCount.toNat = values.length := by
      have hwide : maxBlockItems < UInt32.size := by decide
      rw [← hblock]
      exact UInt32.toNat_ofNat_of_lt' (Nat.lt_of_le_of_lt hlength hwide)
    have hpayload : (writer.writeMonitored column values).1.record.payloadSize = block.payload.length := by
      rw [← hblock]
      rfl
    refine (h column hother).record ?_ ?_ ?_
    · rw [hobserve.1]
      exact Monitor.hasFlag_update _ _ _
    · rw [hitems]
      exact Nat.mul_comm _ _
    · rw [hwell.payloadSize_eq, ← hpayload]
      exact Nat.add_comm _ _
  · rw [if_neg hsame, if_neg hsame, List.append_nil]
    exact h other hother

theorem accounted_writeChunk (h : writer.Accounted blocks) (hsound : writer.context.Sound) (column : Column)
    {values : List Int64} (hlength : values.length ≤ maxBlockItems) :
    (writer.writeChunk column values).2.Accounted (blocks ++ [(writer.writeChunk column values).1.block]) := by
  unfold writeChunk
  cases hmonitored : column.isMonitored with
  | true =>
      obtain ⟨plan, -, hleads⟩ := leads_writeMonitored hsound column hlength
      exact accounted_writeMonitored h hmonitored (hleads.wellFormed _ List.mem_cons_self) hlength
  | false =>
      -- a plain block is in no account
      intro other hother
      have hcolumn : column ≠ other := by
        rintro rfl
        rw [hmonitored] at hother
        cases hother
      show (writer.monitor other).tally.Accounts (columnBlocks other (blocks ++ [(writePlain column values).block]))
      rw [columnBlocks_concat, show (writePlain column values).block.header.column = column from rfl,
        if_neg hcolumn, List.append_nil]
      exact h other hother

/-- **All chunks are accounted for.** -/
theorem accounted_writeChunks (h : writer.Accounted blocks) (hsound : writer.context.Sound)
    (chunks : List (Column × List Int64)) (hshort : ∀ chunk ∈ chunks, chunk.2.length ≤ maxBlockItems) :
    (writer.writeChunks chunks).2.Accounted (blocks ++ (writer.writeChunks chunks).1.map Written.block) := by
  induction chunks generalizing writer blocks with
  | nil =>
      show writer.Accounted (blocks ++ [])
      rw [List.append_nil]
      exact h
  | cons chunk chunks ih =>
      obtain ⟨column, values⟩ := chunk
      have hlength := hshort _ List.mem_cons_self
      obtain ⟨plan, -, hleads⟩ := leads_writeChunk hsound column hlength
      have hrest := ih (accounted_writeChunk h hsound column hlength) hleads.target_sound
        fun other hother => hshort other (List.mem_cons_of_mem _ hother)
      rwa [List.append_assoc] at hrest

end Writer

/-! ## Summaries -/

/-- **What a summary says of quarantine.** -/
theorem verify_print (archive : Archive) (hwell : ∀ block ∈ archive.blocks, block.WellFormed) :
    ∃ summary, verify archive.print = .ok summary ∧
      summary.quarantined = archive.blocks.countP fun block => hasFlag block.header.flags quarantined := by
  refine ⟨_, bind_eq_ok.mpr ⟨_, parseArchive_print archive hwell, rfl⟩, ?_⟩
  show countFlag ((place FileHeader.size archive.blocks).map (·.header)) quarantined = _
  rw [map_header_place]
  exact List.countP_map

/-- Plain blocks are not counted, since they have no flags. -/
theorem countP_monitoredBlocks {blocks : List Block} {chunks : List (Column × List Int64)}
    (h : List.Forall₂ Block.RoutedFor blocks chunks) :
    ((monitoredBlocks blocks).countP fun block => hasFlag block.header.flags quarantined)
      = blocks.countP fun block => hasFlag block.header.flags quarantined := by
  unfold monitoredBlocks
  rw [List.countP_filter]
  induction h with
  | nil => rfl
  | @cons block chunk blocks chunks hrouted _ ih =>
      rw [List.countP_cons, List.countP_cons, ih]
      cases hmonitored : chunk.1.isMonitored with
      | true => rw [hrouted.column, hmonitored, Bool.and_true]
      | false =>
          rw [(hrouted.plain hmonitored).1, show hasFlag 0 quarantined = false by decide, Bool.false_and]

/-! ## Main result -/

namespace Session

/-- **The totals, the report and the archive agree.** Under every valid configuration, for every sink and every
    sequence of operations: if finishing succeeds then, the bytes of all replies are an archive. Its summary counts as
    many quarantined blocks as the telemetry, the totals in the telemetry account for exactly the blocks of the two
    monitored columns, and the report tells for each of these columns of the quarantines in its flags. -/
theorem run_accounts (config : Config) (hvalid : config.validate = .ok ()) (sink : Option Sink) (calls : List Call) :
    ∃ start, Session.start config sink = .ok start ∧
      ∀ output, (start.run calls).2.finish.1 = .ok output →
        let ended := (start.run calls).2.finish.2
        let bytes := written (start.run calls).1 ++ output
        ∃ blocks summary sidecar,
          parseArchiveBlocks bytes = .ok (place FileHeader.size blocks) ∧ verify bytes = .ok summary ∧
            ended.sidecar = some sidecar ∧
            summary.quarantined = ended.telemetry.tally.quarantineBlocks ∧
            ended.telemetry.tally.Accounts (monitoredBlocks blocks) ∧
            sidecar.time.Tells (flagsOf .time blocks) ∧ sidecar.value.Tells (flagsOf .value blocks) := by
  refine ⟨fresh config sink, start_of_valid hvalid sink, ?_⟩
  intro output hfinish ended bytes
  obtain ⟨hopen, flushed, hreply, houtput, hsidecar, hkept⟩ := finish_eq_ok hfinish
  -- all that has been flushed, the last flush included, is one list of chunks
  obtain ⟨chunks, hreplays⟩ := (replays_start config sink).run calls hopen
  obtain ⟨flushed', hreply', hreplays, howed, -⟩ := hreplays.flush
  rw [hreply] at hreply'
  cases hreply'
  obtain ⟨-, hshort, hwriter, hsent, htally⟩ := hreplays
  generalize [] ++ chunks ++ _ = chunks at hshort hwriter hsent
  have hwrites := Writer.writes_writeChunks (sound_initialWriter config) chunks hshort
  -- the accounts of that list, and where it has left the monitors
  have hnothing : (initialWriter config).Accounted [] := by
    intro column hmonitored
    cases column <;> cases hmonitored <;> exact Tally.Accounts.empty
  have haccounts := Writer.accounted_writeChunks hnothing (sound_initialWriter config) chunks hshort
  rw [List.nil_append] at haccounts
  obtain ⟨plans, -, hleads⟩ := hwrites.trace
  generalize hblocks : ((initialWriter config).writeChunks chunks).1.map Written.block = blocks at *
  rw [← hwriter] at haccounts hwrites
  -- the bytes are those of the blocks, so that parsing and summing up get back to the very same blocks
  have hbytes : bytes = Archive.print { flags := fieldwiseTimestamps, blocks } := by
    rw [howed, List.append_nil, List.nil_append] at hsent
    show written _ ++ output = _
    rw [houtput, ← List.append_assoc, hsent, ← hblocks]
    unfold Archive.print
    rw [List.flatMap_map]
  have hparse := parseArchive_print { flags := fieldwiseTimestamps, blocks } hleads.wellFormed
  obtain ⟨summary, hverify, hsummary⟩ := verify_print { flags := fieldwiseTimestamps, blocks } hleads.wellFormed
  rw [← hbytes] at hparse hverify
  have hsum : ended.telemetry.tally.Accounts (monitoredBlocks blocks) := by
    have hboth := (Tally.Accounts.empty.add (haccounts .time rfl)).add (haccounts .value rfl)
    have htotals : ended.telemetry.tally = _ := hkept.trans htally
    rw [htotals]
    exact hboth.perm (perm_monitoredBlocks blocks)
  refine ⟨blocks, summary, _, map_eq_ok.mpr ⟨_, hparse, rfl⟩, hverify, hsidecar, ?_, hsum, ?_, ?_⟩
  · rw [hsummary, hsum.quarantine, countP_monitoredBlocks hwrites.routed]
  · exact Monitor.report_tells (hwrites.emitted .time rfl)
  · exact Monitor.report_tells (hwrites.emitted .value rfl)

/-- Noise, and later timestamps on a line: the column enters quarantine and has not left it when the session ends. -/
def unrestCalls : List Call :=
  noisyTimes.map (fun timestamp => .add (.ofEntries timestamp [(1, ⟨500, 1⟩)])) ++
    [.flush, .add (.ofEntries 600 [(1, ⟨501, 2⟩)]), .flush]

/-- Both blocks of timestamps and the second one of prices are quarantined. They make a segment for each column, which
    the report closes. -/
theorem run_unrestCalls :
    ∃ start output, Session.start { runId := "run" } none = .ok start ∧
      (start.run unrestCalls).2.finish.1 = .ok output ∧
      let ended := (start.run unrestCalls).2.finish.2
      let bytes := written (start.run unrestCalls).1 ++ output
      ∃ blocks summary sidecar, parseArchiveBlocks bytes = .ok (place FileHeader.size blocks) ∧
        verify bytes = .ok summary ∧ ended.sidecar = some sidecar ∧ summary.quarantined = 3 ∧
        ended.telemetry.tally.Accounts (monitoredBlocks blocks) ∧
        sidecar.time.Tells (flagsOf .time blocks) ∧ sidecar.value.Tells (flagsOf .value blocks) ∧
        sidecar.time.segments.map (·.endBlock) = [some 2] ∧ sidecar.value.segments.map (·.startBlock) = [2] := by
  obtain ⟨start, hstart, hends⟩ := run_accounts { runId := "run" } rfl none unrestCalls
  have hconcrete : start = fresh { runId := "run" } none := (Except.ok.inj hstart).symm
  have hok : (start.run unrestCalls).2.finish.1.isOk = true := by
    rw [hconcrete]
    decide +kernel
  obtain ⟨output, hfinish⟩ : ∃ output, (start.run unrestCalls).2.finish.1 = .ok output := by
    cases hreply : (start.run unrestCalls).2.finish.1 with
    | ok output => exact ⟨output, rfl⟩
    | error fault => rw [hreply] at hok; cases hok
  obtain ⟨blocks, summary, sidecar, hparse, hverify, hsidecar, hquarantined, haccounts, htime, hvalue⟩ :=
    hends output hfinish
  have hthree : (start.run unrestCalls).2.finish.2.telemetry.tally.quarantineBlocks = 3 := by
    rw [hconcrete]
    decide +kernel
  have hsegments : (start.run unrestCalls).2.finish.2.sidecar.map
      (fun each => (each.time.segments.map (·.endBlock), each.value.segments.map (·.startBlock)))
        = some ([some 2], [2]) := by
    rw [hconcrete]
    decide +kernel
  rw [hsidecar, Option.map_some] at hsegments
  obtain ⟨hclosed, hopened⟩ := Prod.mk.inj (Option.some.inj hsegments)
  exact ⟨start, output, hstart, hfinish, blocks, summary, sidecar, hparse, hverify, hsidecar,
    hquarantined.trans hthree, haccounts, htime, hvalue, hclosed, hopened⟩

end Session

end SnapshotArchive

import SnapshotArchive.Proofs.Lockstep
import SnapshotArchive.Proofs.Reassembly
import SnapshotArchive.Session.Writer

/-!
# `Proofs.Writer` — a writer carries out plans

How a writer chooses codecs and routes is a matter of figures and thresholds. For reading back it does not
matter: whatever it chooses, every chunk becomes the block of some admissible plan for the chunk's values,
and the writer's context moves as that plan says. The one thing to check is that the quarantine flag and
the context agree: a block is flagged exactly when its route leaves the context alone.

## Contents
- **Chunks.** `flatten_chunks`, `length_le_of_mem_chunks`, `valuesOf_chunksOf`.
- **Traces.** `Context.Leads`, from one context to another by way of plans and their blocks.
- **Writing.** `Monitor.hasFlag_update`, `Writer.writeMonitored_eq_writeBlock`, `Writer.leads_writeChunks`,
  `Writer.leads_writeColumns`; no snapshots take fewer bytes than they have items
  (`Writer.itemCount_le_writeColumns`).
-/

namespace SnapshotArchive

/-! ## Chunks -/

section Chunks

variable {α : Type}

/-- The chunks of a list make up the list. -/
theorem flatten_chunks (size : Nat) (xs : List α) : (chunks size xs).flatten = xs := by
  fun_induction chunks size xs with
  | case1 => rfl
  | case2 x xs ih => rw [List.flatten_cons, ih, List.cons_append, List.take_append_drop]

/-- No chunk is longer than the size asked for. -/
theorem length_le_of_mem_chunks {size : Nat} {xs chunk : List α} (hsize : 0 < size)
    (h : chunk ∈ chunks size xs) : chunk.length ≤ size := by
  fun_induction chunks size xs with
  | case1 => exact absurd h List.not_mem_nil
  | case2 x xs ih =>
      rcases List.mem_cons.mp h with rfl | hmem
      · rw [List.length_cons, List.length_take]
        omega
      · exact ih hmem

end Chunks

namespace Writer

/-- A column's values are those of its chunks. -/
theorem valuesOf_chunksOf (columns : Columns) (column : Column) :
    Columns.valuesOf column (chunksOf columns) = columns.get column := by
  have hown (other : Column) :
      Columns.valuesOf column ((chunks blockSize (columns.get other)).map (other, ·))
        = if other = column then columns.get other else [] := by
    by_cases hcolumn : other = column
    · rw [if_pos hcolumn, Columns.valuesOf, List.flatMap_map]
      simp only [hcolumn, if_true]
      rw [List.flatMap_id', flatten_chunks]
    · rw [if_neg hcolumn, Columns.valuesOf, List.flatMap_map]
      simp only [hcolumn, if_false]
      exact List.flatMap_eq_nil_iff.mpr fun _ _ => rfl
  simp only [chunksOf, Column.all, List.flatMap_cons, List.flatMap_nil, Columns.valuesOf_append, hown]
  cases column <;> simp [Columns.valuesOf]

theorem length_le_of_mem_chunksOf {columns : Columns} {chunk : Column × List Int64}
    (h : chunk ∈ chunksOf columns) : chunk.2.length ≤ maxBlockItems := by
  obtain ⟨column, -, hmem⟩ := List.mem_flatMap.mp h
  obtain ⟨values, hvalues, rfl⟩ := List.mem_map.mp hmem
  have hsize : blockSize ≤ maxBlockItems := by decide
  exact Nat.le_trans (length_le_of_mem_chunks (by decide) hvalues) hsize

end Writer

/-! ## Traces -/

/-- The plans lead from one context to another by way of blocks. They can be carried out one after
    another, and none of them refers to the dictionary if there is none. -/
structure Context.Leads (origin : Context) (plans : List BlockPlan) (blocks : List Block)
    (target : Context) : Prop where
  sound : origin.Sound
  admits : origin.AdmitsAll plans
  served : ∀ plan ∈ plans, plan.codec = .dictVarint → origin.dictionary.isSome
  result : origin.writePlans plans = (blocks, target)

namespace Context.Leads

variable {origin middle target : Context} {plans others : List BlockPlan} {blocks more : List Block}

theorem nil (h : origin.Sound) : origin.Leads [] [] origin where
  sound := h
  admits := trivial
  served := by
    intro plan hmem
    exact absurd hmem List.not_mem_nil
  result := rfl

/-- The reader's side of a trace. -/
theorem read (h : origin.Leads plans blocks target) (offset : Nat) :
    origin.counterpart.readBlocks (place offset blocks)
        = .ok (plans.map BlockPlan.decoded, target.counterpart) ∧
      target.Sound ∧ target.dictionary.isSome = origin.dictionary.isSome := by
  have hread := readBlocks_writePlans h.sound h.admits h.served offset
  rw [h.result] at hread
  exact hread

theorem target_sound (h : origin.Leads plans blocks target) : target.Sound := (h.read 0).2.1

theorem wellFormed (h : origin.Leads plans blocks target) : ∀ block ∈ blocks, block.WellFormed := by
  have hwell := h.admits.wellFormed
  rw [h.result] at hwell
  exact hwell

/-- **Traces are joined** where one ends and the other begins. -/
theorem append (h : origin.Leads plans blocks middle) (h' : middle.Leads others more target) :
    origin.Leads (plans ++ others) (blocks ++ more) target where
  sound := h.sound
  admits := by
    rw [admitsAll_append, h.result]
    exact ⟨h.admits, h'.admits⟩
  served := by
    intro plan hmem hcodec
    rcases List.mem_append.mp hmem with hplan | hplan
    · exact h.served plan hplan hcodec
    · rw [← (h.read 0).2.2]
      exact h'.served plan hplan hcodec
  result := by
    rw [writePlans_append, h.result]
    simp only [h'.result]

end Context.Leads

/-! ## Writing -/

/-- A step flags a block as quarantined exactly when the block's route is quarantine. -/
theorem Monitor.hasFlag_step (monitor : Monitor) (outcome : Outcome) (ratio uniqueRatio : Float) :
    hasFlag (monitor.step outcome ratio uniqueRatio).1 quarantined = outcome.route.isQuarantine := by
  unfold step Route.isQuarantine
  cases monitor.phase with
  | normal =>
      cases outcome.route.path with
      | core => exact (by decide : hasFlag 0 quarantined = decide (Path.core = .quarantine))
      | quarantine => exact (by decide : hasFlag (anomalyStart ||| quarantined) quarantined = true)
  | quarantined reference streak segment =>
      cases outcome.route.path with
      | core => exact (by decide : hasFlag anomalyEnd quarantined = decide (Path.core = .quarantine))
      | quarantine => exact (by decide : hasFlag (anomalyMid ||| quarantined) quarantined = true)

/-- **The flag and the route agree.** -/
theorem Monitor.hasFlag_update (monitor : Monitor) (metrics : Metrics) (outcome : Outcome) :
    hasFlag (monitor.update metrics outcome).1.flags quarantined = outcome.route.isQuarantine :=
  monitor.hasFlag_step outcome _ _

namespace Context

variable {context : Context}

theorem Leads.single (h : context.Sound) (plan : BlockPlan) (hadmits : context.Admits plan)
    (hserved : plan.codec = .dictVarint → context.dictionary.isSome) :
    context.Leads [plan] [(context.writePlan plan).1] (context.writePlan plan).2 where
  sound := h
  admits := ⟨hadmits, trivial⟩
  served := by
    intro other hmem hcodec
    rw [List.mem_singleton.mp hmem] at hcodec
    exact hserved hcodec
  result := rfl

/-- The dictionary is chosen only where it serves. -/
theorem chooseCodec_eq_dictVarint {column : Column} {values : List Int64} {metrics : Metrics}
    (h : context.chooseCodec column values metrics = .dictVarint) :
    context.dictionary.isSome ∧ (context.residuals column .dictVarint values).all fitsLiteral = true := by
  unfold chooseCodec at h
  split at h
  · rename_i hdictionary
    exact ⟨hdictionary.2.2.1, hdictionary.2.2.2⟩
  · split at h
    · exact nomatch h
    · split at h
      · exact nomatch h
      · cases column <;> exact nomatch h

theorem fallback_ne_dictVarint (column : Column) : column.fallback ≠ .dictVarint := by
  cases column <;> exact nofun

end Context

namespace Writer

theorem context_setMonitor (writer : Writer) (column : Column) (monitor : Monitor) :
    (writer.setMonitor column monitor).context = writer.context := by
  unfold setMonitor
  split <;> rfl

/-- **What writing a monitored chunk comes to**: a block of the context, with the fallback codec if the
    block is flagged as quarantined and with the chosen codec otherwise. -/
theorem writeMonitored_eq_writeBlock (writer : Writer) (column : Column) (values : List Int64) :
    ∃ codec flags,
      codec = (if hasFlag flags quarantined then column.fallback
        else writer.context.chooseCodec column values (Metrics.ofValues values)) ∧
      (writer.writeMonitored column values).1.block
        = (writer.context.writeBlock column codec flags values).1 ∧
      (writer.writeMonitored column values).2.context
        = (writer.context.writeBlock column codec flags values).2 := by
  let metrics := Metrics.ofValues values
  let chosen := writer.context.chooseCodec column values metrics
  let trial := writer.context.encode column chosen values
  let route := (writer.monitor column).route metrics (trialRatio values.length trial.1.length)
    (writer.monitor column).nextIndex
  let codec := if route.isQuarantine then column.fallback else chosen
  let flags := (writer.writeMonitored column values).1.block.header.flags
  have hflags : hasFlag flags quarantined = route.isQuarantine := Monitor.hasFlag_update _ _ _
  have hblock : (writer.writeMonitored column values).1.block =
      Block.make column codec values.length flags
        (if route.isQuarantine then (writer.context.encode column codec values).1 else trial.1) := rfl
  have hcontext : (writer.writeMonitored column values).2.context =
      if route.isQuarantine then writer.context else trial.2 := context_setMonitor _ _ _
  have hcodec (hcore : route.isQuarantine = false) : codec = chosen := by
    simp only [codec, hcore, Bool.false_eq_true, if_false]
  refine ⟨codec, flags, ?_, ?_, ?_⟩
  · rw [hflags]
  · -- on the core path the trial is the block
    rw [hblock]
    cases hroute : route.isQuarantine with
    | true => rfl
    | false => rw [hcodec hroute]; rfl
  · -- the flag makes the context of the block stay exactly where the route leaves it
    rw [hcontext, Context.writeBlock_snd, hflags]
    cases hroute : route.isQuarantine with
    | true => rfl
    | false => rw [hcodec hroute]

/-- **A monitored chunk becomes the block of a plan.** -/
theorem leads_writeMonitored {writer : Writer} (h : writer.context.Sound) (column : Column)
    {values : List Int64} (hlength : values.length ≤ maxBlockItems) :
    ∃ plan : BlockPlan, plan.decoded = (column, values) ∧
      writer.context.Leads [plan] [(writer.writeMonitored column values).1.block]
        (writer.writeMonitored column values).2.context := by
  obtain ⟨codec, flags, hcodec, hblock, hcontext⟩ := writer.writeMonitored_eq_writeBlock column values
  have hchosen : codec = .dictVarint →
      codec = writer.context.chooseCodec column values (Metrics.ofValues values) := by
    intro hdictionary
    by_cases hflag : hasFlag flags quarantined = true
    · rw [if_pos hflag] at hcodec
      exact absurd (hcodec.symm.trans hdictionary) (Context.fallback_ne_dictVarint column)
    · rw [hcodec, if_neg hflag]
  have hserved : codec = .dictVarint → writer.context.dictionary.isSome ∧
      (writer.context.residuals column codec values).all fitsLiteral = true := by
    intro hdictionary
    have hchoice := (hchosen hdictionary).symm.trans hdictionary
    rw [hdictionary]
    exact Context.chooseCodec_eq_dictVarint hchoice
  refine ⟨{ column, codec, flags, values }, rfl, ?_⟩
  rw [hblock, hcontext]
  exact Context.Leads.single h _ ⟨hlength, fun hdictionary => (hserved hdictionary).2⟩
    fun hdictionary => (hserved hdictionary).1

/-- **A plain chunk becomes the block of a plan** that leaves no trace. -/
theorem leads_writePlain {context : Context} (h : context.Sound) {column : Column}
    (hplain : column.isMonitored = false) {values : List Int64} (hlength : values.length ≤ maxBlockItems) :
    ∃ plan : BlockPlan, plan.decoded = (column, values) ∧
      context.Leads [plan] [(writePlain column values).block] context := by
  let plan : BlockPlan := { column, codec := .varintDelta, flags := 0, values }
  have hcodec : plan.codec ≠ .dictVarint := by
    intro heq
    cases heq
  have hflags : ¬hasFlag 0 quarantined = true := by decide
  have hsingle := Context.Leads.single h plan ⟨hlength, fun heq => absurd heq hcodec⟩
    (fun heq => absurd heq hcodec)
  have hcontext : (context.writePlan plan).2 = (context.encode column .varintDelta values).2 := by
    rw [Context.writePlan, Context.writeBlock_snd, if_neg hflags]
  rw [hcontext] at hsingle
  refine ⟨plan, rfl, ?_⟩
  -- a plain column has no track to move and, with this codec, no use for the dictionary
  cases column with
  | time | value => cases hplain
  | snapshotLen | itemId | quantity => exact hsingle

theorem leads_writeChunk {writer : Writer} (h : writer.context.Sound) (column : Column)
    {values : List Int64} (hlength : values.length ≤ maxBlockItems) :
    ∃ plan : BlockPlan, plan.decoded = (column, values) ∧
      writer.context.Leads [plan] [(writer.writeChunk column values).1.block]
        (writer.writeChunk column values).2.context := by
  unfold writeChunk
  cases hmonitored : column.isMonitored with
  | true => exact leads_writeMonitored h column hlength
  | false => exact leads_writePlain h hmonitored hlength

/-- **Chunks written one after another become the blocks of a schedule** for the same values. -/
theorem leads_writeChunks {writer : Writer} (h : writer.context.Sound)
    (chunks : List (Column × List Int64)) (hlength : ∀ chunk ∈ chunks, chunk.2.length ≤ maxBlockItems) :
    ∃ plans, plans.map BlockPlan.decoded = chunks ∧
      writer.context.Leads plans ((writer.writeChunks chunks).1.map Written.block)
        (writer.writeChunks chunks).2.context := by
  induction chunks generalizing writer with
  | nil => exact ⟨[], rfl, Context.Leads.nil h⟩
  | cons chunk chunks ih =>
      obtain ⟨column, values⟩ := chunk
      obtain ⟨plan, hplan, hfirst⟩ := leads_writeChunk h column (hlength _ List.mem_cons_self)
      obtain ⟨plans, hplans, hrest⟩ := ih hfirst.target_sound
        (fun other hother => hlength other (List.mem_cons_of_mem _ hother))
      refine ⟨plan :: plans, ?_, hfirst.append hrest⟩
      rw [List.map_cons, hplan, hplans]

/-- **Columns become the blocks of a schedule** from which every column can be read. -/
theorem leads_writeColumns {writer : Writer} (h : writer.context.Sound) (columns : Columns) :
    ∃ plans,
      (∀ column, Columns.valuesOf column (plans.map BlockPlan.decoded) = columns.get column) ∧
      writer.context.Leads plans ((writer.writeColumns columns).1.map Written.block)
        (writer.writeColumns columns).2.context := by
  obtain ⟨plans, hplans, hleads⟩ := leads_writeChunks h (chunksOf columns)
    (fun chunk hchunk => length_le_of_mem_chunksOf hchunk)
  refine ⟨plans, fun column => ?_, hleads⟩
  rw [hplans]
  exact valuesOf_chunksOf columns column

/-! ### Size -/

/-- Item ids are plain, so that each takes at least a byte. -/
theorem length_ids_le_writeChunks (writer : Writer) (chunks : List (Column × List Int64)) :
    (Columns.valuesOf .itemId chunks).length
      ≤ ((writer.writeChunks chunks).1.flatMap fun each => each.block.print).length := by
  induction chunks generalizing writer with
  | nil => exact Nat.zero_le _
  | cons chunk chunks ih =>
      obtain ⟨column, values⟩ := chunk
      have hrest := ih (writer.writeChunk column values).2
      have hfirst : (if column = .itemId then values else []).length
          ≤ (writer.writeChunk column values).1.block.print.length := by
        by_cases hcolumn : column = .itemId
        · subst hcolumn
          have hpayload := (VarintList.length_write values).1
          have hprint : (writer.writeChunk .itemId values).1.block.print.length
              = BlockHeader.size + (VarintList.write values).length := Block.length_print _
          rw [if_pos rfl, hprint]
          omega
        · rw [if_neg hcolumn]
          exact Nat.zero_le _
      have hvalues : Columns.valuesOf .itemId ((column, values) :: chunks)
          = (if column = .itemId then values else []) ++ Columns.valuesOf .itemId chunks :=
        List.flatMap_cons
      rw [hvalues, List.length_append]
      show _ ≤ ((writer.writeChunk column values).1.block.print ++ _).length
      rw [List.length_append]
      exact Nat.add_le_add hfirst hrest

/-- **The blocks of snapshots have at least as many bytes as the snapshots have items.** -/
theorem itemCount_le_writeColumns (writer : Writer) (snapshots : List Snapshot) :
    itemCount snapshots ≤
      ((writer.writeColumns (.ofSnapshots snapshots)).1.flatMap fun each => each.block.print).length := by
  have hids := length_ids_le_writeChunks writer (chunksOf (.ofSnapshots snapshots))
  rw [valuesOf_chunksOf] at hids
  rw [← length_flatMap_items, ← List.length_map (·.1)]
  exact hids

end Writer

end SnapshotArchive

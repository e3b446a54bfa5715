import Mathlib.Algebra.BigOperators.Group.List.Basic
import Mathlib.Algebra.GroupWithZero.Nat
import SnapshotArchive.Proofs.Reading
import SnapshotArchive.Proofs.Yield

/-!
# `Proofs.Counting` — a summary counts what decoding gives

A summary is made from the headers, without a look into any payload; decoding counts what comes out of the payloads
and then checks the columns against each other. The two agree because both start from the same framing and because
decoding refuses a block whose payload does not hold as many values as its header declares. So, if no block has been
skipped, the declared numbers of a column add up to the length of the column, and what reassembly demands of the
columns it demands of the summary.

## Contents
- **Summaries.** `Summary.counts`; `Summary.counts_eq`, `Summary.sum_blocks`.
- **Contributions.** `BlockHeader.contribution`, `contributed`.
- **Columns.** `Context.length_valuesOf`, `Columns.isSome_lengths?_gather`; what reassembly demands,
  `Columns.length_of_assemble_none` and `Columns.lengths_of_assemble_some`.
- **Main result.** `verify_decode_agree`.
-/

namespace SnapshotArchive

/-! ## Summaries -/

/-- What a summary says of a column. -/
def Summary.counts (summary : Summary) (column : Column) : ColumnCounts :=
  (summary.columns.lookup column).getD { blocks := 0, items := 0 }

/-- The headers of a column's blocks. -/
def columnHeaders (headers : List BlockHeader) (column : Column) : List BlockHeader :=
  headers.filter (·.column = column)

section Headers

variable {headers : List BlockHeader} {column : Column}

theorem countItems_eq_sum (headers : List BlockHeader) :
    countItems headers = (headers.map fun header => header.itemCount.toNat).sum := by
  rw [List.sum_eq_foldl_nat, List.foldl_map]
  rfl

/-- A column is counted unless it has no blocks. -/
theorem countColumn_eq (headers : List BlockHeader) (column : Column) :
    countColumn headers column =
      if columnHeaders headers column = [] then none
      else some (column,
        { blocks := (columnHeaders headers column).length, items := countItems (columnHeaders headers column) }) := by
  unfold countColumn columnHeaders
  split
  · rename_i hnone
    rw [if_pos hnone]
  · rename_i hsome
    rw [if_neg hsome]

theorem fst_of_countColumn {each : Column × ColumnCounts} (h : countColumn headers column = some each) :
    each.1 = column := by
  rw [countColumn_eq] at h
  split at h
  · cases h
  · rw [← Option.some.inj h]

theorem lookup_filterMap_countColumn (columns : List Column) :
    (columns.filterMap (countColumn headers)).lookup column
      = if column ∈ columns then (countColumn headers column).map (·.2) else none := by
  induction columns with
  | nil => rfl
  | cons first columns ih =>
      rw [List.filterMap_cons]
      cases hcount : countColumn headers first with
      | none =>
          simp only
          rw [ih]
          by_cases hsame : column = first
          · simp [hsame, hcount]
          · simp [hsame]
      | some each =>
          obtain ⟨key, counts⟩ := each
          have hkey : key = first := fst_of_countColumn hcount
          subst hkey
          by_cases hsame : column = key
          · simp [hsame, hcount]
          · simp [lookup_cons_key, hsame, ih]

/-- Every column is looked at. -/
theorem Column.mem_all (column : Column) : column ∈ all := by
  cases column <;> decide

/-- Every header is of one column. -/
theorem sum_length_columnHeaders (headers : List BlockHeader) :
    (Column.all.map fun column => (columnHeaders headers column).length).sum = headers.length := by
  induction headers with
  | nil => rfl
  | cons header headers ih =>
      have hone : (Column.all.map fun column => if header.column = column then 1 else 0).sum = 1 := by
        cases header.column <;> rfl
      have hsplit : ∀ column, (columnHeaders (header :: headers) column).length
          = (columnHeaders headers column).length + if header.column = column then 1 else 0 := by
        intro column
        unfold columnHeaders
        by_cases hcolumn : header.column = column <;> simp [hcolumn]
      simp only [hsplit, List.sum_map_add, ih, hone, List.length_cons]

theorem sum_blocks_filterMap (columns : List Column) :
    ((columns.filterMap (countColumn headers)).map fun each => each.2.blocks).sum
      = (columns.map fun column => (columnHeaders headers column).length).sum := by
  induction columns with
  | nil => rfl
  | cons column columns ih =>
      rw [List.filterMap_cons, countColumn_eq]
      by_cases hempty : columnHeaders headers column = []
      · simp [hempty, ih]
      · simp [hempty, ih]

/-- **What a summary says of a column** are the number of its blocks and what their headers declare. -/
theorem Summary.counts_eq {summary : Summary} (h : summary.columns = Column.all.filterMap (countColumn headers))
    (column : Column) :
    summary.counts column =
      { blocks := (columnHeaders headers column).length, items := countItems (columnHeaders headers column) } := by
  unfold counts
  rw [h, lookup_filterMap_countColumn, if_pos column.mem_all, countColumn_eq]
  split
  · rename_i hempty
    rw [hempty]
    rfl
  · rfl

/-- **The blocks of all columns are all blocks.** -/
theorem Summary.sum_blocks {summary : Summary} (h : summary.columns = Column.all.filterMap (countColumn headers)) :
    (summary.columns.map fun each => each.2.blocks).sum = headers.length := by
  rw [h, sum_blocks_filterMap, sum_length_columnHeaders]

end Headers

/-- Verifying adds no check to those of the framing. -/
theorem verify_of_parseArchive {bytes : Bytes} {header : FileHeader} {blocks : List PlacedBlock}
    (h : parseArchive bytes = .ok (header, blocks)) :
    ∃ summary, verify bytes = .ok summary ∧ summary.blockCount = blocks.length ∧
      summary.columns = Column.all.filterMap (countColumn (blocks.map (·.header))) ∧
      summary.unknownCodecs = (blocks.map (·.header)).countP fun header => header.codec?.isNone :=
  ⟨_, bind_eq_ok.mpr ⟨_, h, rfl⟩, rfl, rfl, rfl⟩

/-- A fault of verifying is one of the framing. -/
theorem parseArchive_of_verify {bytes : Bytes} {fault : Fault} (h : verify bytes = .error fault) :
    parseArchive bytes = .error fault := by
  cases hparse : parseArchive bytes with
  | ok parsed =>
      obtain ⟨summary, hsummary, -⟩ := verify_of_parseArchive hparse
      rw [hsummary] at h
      cases h
  | error other =>
      unfold verify at h
      rw [hparse] at h
      exact congrArg Except.error (Except.error.inj h)

/-! ## Contributions -/

/-- The number of values that a block adds to its column: what the header declares, unless the block is skipped. -/
def BlockHeader.contribution (header : BlockHeader) : Nat :=
  if header.codec?.isSome then header.itemCount.toNat else 0

/-- The block adds exactly the values to the column. -/
structure BlockHeader.Holds (header : BlockHeader) (each : Column × List Int64) : Prop where
  column : header.column = each.1
  contribution : header.contribution = each.2.length

/-- What the blocks of a column add up to. -/
def contributed (headers : List BlockHeader) (column : Column) : Nat :=
  ((columnHeaders headers column).map BlockHeader.contribution).sum

theorem contributed_cons (header : BlockHeader) (headers : List BlockHeader) (column : Column) :
    contributed (header :: headers) column =
      (if header.column = column then header.contribution else 0) + contributed headers column := by
  unfold contributed columnHeaders
  by_cases hcolumn : header.column = column <;> simp [hcolumn]

/-- Where no block is skipped, all that is declared is contributed. -/
theorem contributed_of_known {headers : List BlockHeader} (h : ∀ header ∈ headers, header.codec?.isNone = false)
    (column : Column) : contributed headers column = countItems (columnHeaders headers column) := by
  rw [countItems_eq_sum]
  refine congrArg List.sum (List.map_congr_left fun header hmem => ?_)
  rw [BlockHeader.contribution, if_pos]
  exact Option.isNone_eq_false_iff.mp (h header (List.mem_of_mem_filter hmem))

/-! ## Columns -/

namespace Context

variable {context next : Context}

/-- Each block that is read gives values of its column, as many as it contributes. -/
theorem holds_of_readBlocks {blocks : List PlacedBlock} {decoded : List (Column × List Int64)}
    (h : context.readBlocks blocks = .ok (decoded, next)) :
    List.Forall₂ BlockHeader.Holds (blocks.map (·.header)) decoded := by
  induction blocks generalizing context decoded with
  | nil =>
      obtain ⟨rfl, -⟩ := Prod.mk.inj (Except.ok.inj h)
      exact .nil
  | cons block blocks ih =>
      obtain ⟨values, between, others, hread, hreads, rfl⟩ := readBlocks_cons_eq_ok.mp h
      refine .cons ⟨rfl, ?_⟩ (ih hreads)
      unfold BlockHeader.contribution
      rcases readBlock_eq_ok hread with ⟨hcodec, rfl, -⟩ | ⟨codec, residuals, moved, hcodec, -, hcount, rfl, -⟩
      · rw [hcodec]
        rfl
      · rw [hcodec, length_restore, hcount]
        rfl

/-- **The length of a column is what its blocks contribute.** -/
theorem length_valuesOf {blocks : List PlacedBlock} {decoded : List (Column × List Int64)}
    (h : context.readBlocks blocks = .ok (decoded, next)) (column : Column) :
    (Columns.valuesOf column decoded).length = contributed (blocks.map (·.header)) column := by
  have hholds := holds_of_readBlocks h
  clear h
  generalize blocks.map (·.header) = headers at hholds
  unfold Columns.valuesOf
  induction hholds with
  | nil => rfl
  | @cons header each headers decoded hholds _ ih =>
      rw [contributed_cons, ← ih, hholds.column, hholds.contribution]
      by_cases hcolumn : each.1 = column <;> simp [hcolumn]

/-- **The length of a column is what the headers of its blocks declare**, if no block is skipped. -/
theorem length_valuesOf_readBlocks {blocks : List PlacedBlock} {decoded : List (Column × List Int64)}
    (hknown : ∀ block ∈ blocks, block.header.codec?.isNone = false)
    (h : context.readBlocks blocks = .ok (decoded, next)) (column : Column) :
    (Columns.valuesOf column decoded).length = countItems (columnHeaders (blocks.map (·.header)) column) := by
  rw [length_valuesOf h]
  apply contributed_of_known
  intro header hmem
  obtain ⟨block, hblock, rfl⟩ := List.mem_map.mp hmem
  exact hknown block hblock

end Context

namespace Columns

/-- The length column is present when some block belongs to it. -/
theorem isSome_lengths?_gather (decoded : List (Column × List Int64)) :
    (gather decoded).lengths?.isSome = true ↔ .snapshotLen ∈ decoded.map (·.1) := by
  have hany : decoded.any (·.1 = .snapshotLen) = true ↔ .snapshotLen ∈ decoded.map (·.1) := by
    simp only [List.any_eq_true, List.mem_map, decide_eq_true_eq]
  rw [← hany]
  unfold gather
  cases decoded.any (·.1 = .snapshotLen) <;> simp

/-- Without lengths, a snapshot is made of each timestamp and price as long as both last. -/
theorem length_of_assemble_none {columns : Columns} {snapshots : List Snapshot} (hlengths : columns.lengths? = none)
    (h : columns.assemble = .ok snapshots) :
    snapshots.length = min (columns.get .time).length (columns.get .value).length := by
  unfold assemble at h
  rw [hlengths] at h
  rw [← Except.ok.inj h, assembleSingles, List.length_zipWith]
  rfl

/-- **With lengths, nothing is lost**: there are as many snapshots as timestamps and as lengths, and as many items as
    ids, as prices and as quantities. -/
theorem lengths_of_assemble_some {columns : Columns} {lengths : List Int64} {snapshots : List Snapshot}
    (hlengths : columns.lengths? = some lengths) (h : columns.assemble = .ok snapshots) :
    (columns.get .time).length = snapshots.length ∧ (columns.get .snapshotLen).length = snapshots.length ∧
      (columns.get .itemId).length = itemCount snapshots ∧ (columns.get .value).length = itemCount snapshots ∧
      (columns.get .quantity).length = itemCount snapshots := by
  obtain ⟨total, hcount, htotal, hids, hprices, hquantities, hcarve⟩ := assemble_eq_ok hlengths h
  have hrows : snapshots.length = lengths.length := by
    rw [length_of_carve hcarve, List.length_zip, hcount, Nat.min_self]
  have hentries : (columns.ids.zip (columns.prices.zipWith Item.mk columns.quantities)).length = total := by
    rw [List.length_zip, List.length_zipWith, hids, hprices, hquantities, Nat.min_self, Nat.min_self]
  have hitems : itemCount snapshots = total := by
    rw [← hentries]
    apply itemCount_of_carve hcarve
    have hsecond : (columns.times.zip lengths).map Prod.snd = lengths :=
      List.map_snd_zip (Nat.le_of_eq hcount)
    have hsum := totalLength_eq_ok htotal
    rw [Nat.zero_add, ← hsecond, List.map_map] at hsum
    rw [hentries, hsum]
    rfl
  refine ⟨?_, ?_, ?_, ?_, ?_⟩
  · exact hcount.symm.trans hrows.symm
  · show (columns.lengths?.getD []).length = _
    rw [hlengths]
    exact hrows.symm
  · exact hids.trans hitems.symm
  · exact hprices.trans hitems.symm
  · exact hquantities.trans hitems.symm

end Columns

/-! ## Main result -/

/-- **Verifying and decoding agree.** For all bytes: where verifying fails, decoding fails with the same fault; where
    decoding succeeds, so does verifying. If decoding succeeds and the summary counts no block of an unknown codec then
    the summary counts what has been decoded: with a block of lengths in the archive, timestamps and lengths are as many
    as the snapshots, and ids, prices and quantities as many as all their items; without one, the snapshots are as many
    as the timestamps or the prices, whichever are fewer. The blocks of all columns are always as many as all blocks. -/
theorem verify_decode_agree (bytes : Bytes) :
    (∀ fault, verify bytes = .error fault → decode bytes = .error fault) ∧
    (∀ snapshots, decode bytes = .ok snapshots →
      ∃ summary blocks, verify bytes = .ok summary ∧ parseArchiveBlocks bytes = .ok blocks ∧
        (summary.unknownCodecs = 0 → (∃ block ∈ blocks, block.header.column = .snapshotLen) →
          (summary.counts .time).items = snapshots.length ∧
          (summary.counts .snapshotLen).items = snapshots.length ∧
          (summary.counts .itemId).items = itemCount snapshots ∧
          (summary.counts .value).items = itemCount snapshots ∧
          (summary.counts .quantity).items = itemCount snapshots) ∧
        (summary.unknownCodecs = 0 → (¬∃ block ∈ blocks, block.header.column = .snapshotLen) →
          snapshots.length = min (summary.counts .time).items (summary.counts .value).items)) ∧
    (∀ summary, verify bytes = .ok summary →
      (summary.columns.map fun each => each.2.blocks).sum = summary.blockCount) := by
  refine ⟨?_, ?_, ?_⟩
  · intro fault hverify
    unfold decode
    rw [parseArchive_of_verify hverify]
    rfl
  · intro snapshots hdecode
    obtain ⟨⟨header, blocks⟩, hparse, hdecode⟩ := bind_eq_ok.mp hdecode
    obtain ⟨columns, hcolumns, hassemble⟩ := bind_eq_ok.mp hdecode
    obtain ⟨⟨decoded, last⟩, hread, hcolumns⟩ := bind_eq_ok.mp hcolumns
    obtain rfl := Except.ok.inj hcolumns
    obtain ⟨summary, hverify, -, hsummary, hunknown⟩ := verify_of_parseArchive hparse
    -- a column is as long as the summary says
    have hitems (hnone : summary.unknownCodecs = 0) (column : Column) :
        (summary.counts column).items = ((Columns.gather decoded).get column).length := by
      have hknown : ∀ block ∈ blocks, block.header.codec?.isNone = false := by
        intro block hmem
        rw [hunknown, List.countP_eq_zero] at hnone
        exact eq_false_of_ne_true (hnone _ (List.mem_map_of_mem hmem))
      rw [Summary.counts_eq hsummary, Columns.get_gather, Context.length_valuesOf_readBlocks hknown hread]
    -- and the lengths are there when one of the blocks is theirs
    have hpresence : (Columns.gather decoded).lengths?.isSome = true ↔
        ∃ block ∈ blocks, block.header.column = .snapshotLen := by
      rw [Columns.isSome_lengths?_gather, Context.map_fst_readBlocks hread, List.mem_map]
    refine ⟨summary, blocks, hverify, parseArchiveBlocks_eq_ok_iff.mpr ⟨header, hparse⟩, ?_, ?_⟩
    · intro hnone hpresent
      obtain ⟨lengths, hlengths⟩ := Option.isSome_iff_exists.mp (hpresence.mpr hpresent)
      simp only [hitems hnone]
      exact Columns.lengths_of_assemble_some hlengths hassemble
    · intro hnone hmissing
      simp only [hitems hnone]
      exact Columns.length_of_assemble_none (Option.not_isSome_iff_eq_none.mp (mt hpresence.mp hmissing)) hassemble
  · intro summary hverify
    obtain ⟨⟨header, blocks⟩, hparse, hsummary⟩ := bind_eq_ok.mp hverify
    obtain ⟨summary', hverify', hcount, hcolumns, -⟩ := verify_of_parseArchive hparse
    rw [hverify] at hverify'
    obtain rfl := Except.ok.inj hverify'
    rw [Summary.sum_blocks hcolumns, hcount, List.length_map]

/-- Three snapshots whose timestamps, ids and prices are spread over blocks of all kinds, an empty one and a quarantined
    one among them. -/
def spreadArchive : Archive where
  flags := fieldwiseTimestamps
  blocks := (Context.withDictionary.writePlans [
    { column := .value, codec := .dictVarint, flags := 0, values := [250, 251] },
    { column := .time, codec := .dodVarint, flags := 0, values := [1000] },
    { column := .time, codec := .rleDod, flags := quarantined, values := [1060, 1120] },
    { column := .snapshotLen, codec := .varintDelta, flags := 0, values := [1, 0, 2] },
    { column := .itemId, codec := .bitpackDelta, flags := 0, values := [7] },
    { column := .value, codec := .bitpackDelta, flags := 0, values := [] },
    { column := .value, codec := .varintDelta, flags := quarantined, values := [-9] },
    { column := .itemId, codec := .rleZigzag, flags := 0, values := [-2, 7] },
    { column := .quantity, codec := .varintDelta, flags := 0, values := [3, 1, 3] }]).1

theorem spreadArchive_agrees :
    decode spreadArchive.print
        = .ok [.ofEntries 1000 [(7, ⟨250, 3⟩)], .empty 1060, .ofEntries 1120 [(7, ⟨-9, 3⟩), (-2, ⟨251, 1⟩)]] ∧
      ∃ summary, verify spreadArchive.print = .ok summary ∧
        (summary.counts .time).items = 3 ∧ (summary.counts .snapshotLen).items = 3 ∧
        (summary.counts .itemId).items = 3 ∧ (summary.counts .value).items = 3 ∧
        (summary.counts .quantity).items = 3 ∧
        (summary.columns.map fun each => each.2.blocks).sum = summary.blockCount := by
  obtain ⟨-, hcounts, hblocks⟩ := verify_decode_agree spreadArchive.print
  have hdecode : decode spreadArchive.print
      = .ok [.ofEntries 1000 [(7, ⟨250, 3⟩)], .empty 1060, .ofEntries 1120 [(7, ⟨-9, 3⟩), (-2, ⟨251, 1⟩)]] := by
    decide +kernel
  obtain ⟨summary, blocks, hverify, hparsed, hcolumns, -⟩ := hcounts _ hdecode
  have hwell : ∀ block ∈ spreadArchive.blocks, block.WellFormed :=
    Context.AdmitsAll.wellFormed (by decide +kernel)
  have hparse := parseArchive_print spreadArchive hwell
  obtain ⟨header, hparse'⟩ := parseArchiveBlocks_eq_ok_iff.mp hparsed
  obtain ⟨summary', hverify', -, -, hunknown⟩ := verify_of_parseArchive hparse
  rw [hparse] at hparse'
  obtain ⟨-, rfl⟩ := Prod.mk.inj (Except.ok.inj hparse')
  rw [hverify] at hverify'
  obtain rfl := Except.ok.inj hverify'
  have hnone : summary.unknownCodecs = 0 := by
    rw [hunknown]
    decide +kernel
  obtain ⟨htime, hlengths, hids, hprices, hquantities⟩ := hcolumns hnone (by decide +kernel)
  exact ⟨hdecode, summary, hverify, htime, hlengths, hids, hprices, hquantities, hblocks summary hverify⟩

end SnapshotArchive

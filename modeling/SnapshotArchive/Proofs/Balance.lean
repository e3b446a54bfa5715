import SnapshotArchive.Proofs.Containment
import SnapshotArchive.Proofs.Counting
import SnapshotArchive.Proofs.HealthFlags
import SnapshotArchive.Proofs.Replay

/-!
# `Proofs.Balance` — the columns of an archive keep each other's balance

An archive carries no checksum and does not say how many blocks it has. What it has instead is a balance: there are
as many timestamps as lengths, and as many ids as prices and as quantities. A block contributes to its column what
its header declares, or nothing if it is skipped, and never anything to another column. Reassembly looks at the
balance before anything else, unless there are no lengths at all: archives without lengths have a meaning of their
own. Encoded snapshots are in balance, and each of their blocks holds at least one value.

## Contents
- **Balance.** `Column.partner`, `Balanced`; `Balanced.replaced` and `Balanced.removed`, how it is lost.
- **Decoding.** `balanced_of_decode`, `failsWith_of_unbalanced`; `decode_of_no_lengths`.
- **Encoded archives.** `Archive.Full` and `full_encodedArchive`; `isLast_lengthBlock_iff`.
-/

namespace SnapshotArchive

/-! ## Balance -/

/-- A column that has to have as many values. -/
def Column.partner : Column → Column
  | .time => .snapshotLen
  | .snapshotLen => .time
  | .itemId => .value
  | .value => .quantity
  | .quantity => .itemId

theorem Column.partner_ne (column : Column) : column ≠ column.partner := by
  cases column <;> decide

/-- Every column adds up to as much as its partner. -/
def Balanced (headers : List BlockHeader) : Prop :=
  ∀ column, contributed headers column = contributed headers column.partner

section Balance

variable {before after : List BlockHeader} {header other : BlockHeader}

theorem contributed_append (headers others : List BlockHeader) (column : Column) :
    contributed (headers ++ others) column = contributed headers column + contributed others column := by
  unfold contributed columnHeaders
  rw [List.filter_append, List.map_append, List.sum_append]

/-- **A block that contributes differently tips the balance**: the sum of its column changes, that of the partner
    does not. -/
theorem Balanced.replaced (h : Balanced (before ++ header :: after)) (hcolumn : other.column = header.column)
    (hne : other.contribution ≠ header.contribution) : ¬Balanced (before ++ other :: after) := by
  intro h'
  have hthen := h header.column
  have hnow := h' header.column
  simp only [contributed_append, contributed_cons, hcolumn, if_true, if_neg header.column.partner_ne] at hthen hnow
  omega

/-- **A missing block tips the balance** if it contributed. -/
theorem Balanced.removed (h : Balanced (before ++ header :: after)) (hne : header.contribution ≠ 0) :
    ¬Balanced (before ++ after) := by
  intro h'
  have hthen := h header.column
  have hnow := h' header.column
  simp only [contributed_append, contributed_cons, if_true, if_neg header.column.partner_ne] at hthen hnow
  omega

end Balance

/-! ## Decoding -/

section Decoding

variable {archive : Archive}

/-- **What is decoded has been balanced**, if there are lengths. -/
theorem balanced_of_decode {snapshots : List Snapshot} (hwell : ∀ block ∈ archive.blocks, block.WellFormed)
    (hlengths : ∃ block ∈ archive.blocks, block.header.column = .snapshotLen)
    (h : decode archive.print = .ok snapshots) : Balanced (archive.blocks.map (·.header)) := by
  obtain ⟨⟨header, placed⟩, hparse, h⟩ := bind_eq_ok.mp h
  rw [parseArchive_print archive hwell] at hparse
  obtain ⟨rfl, rfl⟩ := Prod.mk.inj (Except.ok.inj hparse)
  obtain ⟨columns, hcolumns, hassemble⟩ := bind_eq_ok.mp h
  obtain ⟨⟨decoded, last⟩, hread, hcolumns⟩ := bind_eq_ok.mp hcolumns
  obtain rfl := Except.ok.inj hcolumns
  have hlength (column : Column) :
      ((Columns.gather decoded).get column).length = contributed (archive.blocks.map (·.header)) column := by
    rw [Columns.get_gather, Context.length_valuesOf hread, map_header_place]
  have hpresent : .snapshotLen ∈ decoded.map (·.1) := by
    obtain ⟨block, hmem, hcolumn⟩ := hlengths
    rw [← map_toBlock_place FileHeader.size archive.blocks] at hmem
    obtain ⟨placed, hplaced, rfl⟩ := List.mem_map.mp hmem
    rw [Context.map_fst_readBlocks hread]
    exact List.mem_map.mpr ⟨placed, hplaced, hcolumn⟩
  obtain ⟨lengths, hsome⟩ := Option.isSome_iff_exists.mp ((Columns.isSome_lengths?_gather decoded).mpr hpresent)
  obtain ⟨htimes, hlens, hids, hprices, hquantities⟩ := Columns.lengths_of_assemble_some hsome hassemble
  intro column
  rw [← hlength, ← hlength]
  cases column with
  | time => exact htimes.trans hlens.symm
  | snapshotLen => exact hlens.trans htimes.symm
  | itemId => exact hids.trans hprices.symm
  | value => exact hprices.trans hquantities.symm
  | quantity => exact hquantities.trans hids.symm

/-- Out of balance, an archive with lengths is not decoded. -/
theorem failsWith_of_unbalanced (hwell : ∀ block ∈ archive.blocks, block.WellFormed)
    (hlengths : ∃ block ∈ archive.blocks, block.header.column = .snapshotLen)
    (h : ¬Balanced (archive.blocks.map (·.header))) :
    FailsWith Fault.Kind.isRecognized (decode archive.print) := by
  refine (contained_decode archive.print).resolve_left ?_
  rintro ⟨snapshots, hdecode⟩
  exact h (balanced_of_decode hwell hlengths hdecode)

/-- **Without lengths**, timestamps and prices are paired as long as both last. -/
theorem decode_of_no_lengths {decoded : List (Column × List Int64)} {last : Context}
    (hwell : ∀ block ∈ archive.blocks, block.WellFormed)
    (hnone : ∀ block ∈ archive.blocks, block.header.column ≠ .snapshotLen)
    (hread : Context.withDictionary.readBlocks (place FileHeader.size archive.blocks) = .ok (decoded, last)) :
    decode archive.print =
      .ok (Columns.assembleSingles (Columns.valuesOf .time decoded) (Columns.valuesOf .value decoded)) := by
  have habsent : .snapshotLen ∉ decoded.map (·.1) := by
    rw [Context.map_fst_readBlocks hread]
    intro hmem
    obtain ⟨placed, hplaced, hcolumn⟩ := List.mem_map.mp hmem
    have hblock : placed.toBlock ∈ archive.blocks := by
      rw [← map_toBlock_place FileHeader.size archive.blocks]
      exact List.mem_map_of_mem hplaced
    exact hnone placed.toBlock hblock hcolumn
  have hlengths : (Columns.gather decoded).lengths? = none :=
    Option.not_isSome_iff_eq_none.mp (mt (Columns.isSome_lengths?_gather decoded).mp habsent)
  have hassemble : (Columns.gather decoded).assemble =
      .ok (Columns.assembleSingles ((Columns.gather decoded).get .time) ((Columns.gather decoded).get .value)) := by
    unfold Columns.assemble
    rw [hlengths]
    rfl
  rw [Columns.get_gather, Columns.get_gather] at hassemble
  have hcolumns : readColumns (place FileHeader.size archive.blocks) = .ok (.gather decoded) :=
    bind_eq_ok.mpr ⟨_, hread, rfl⟩
  refine Eq.trans ?_ hassemble
  unfold decode
  rw [parseArchive_print archive hwell]
  show (readColumns _ >>= _) = _
  rw [hcolumns]
  rfl

end Decoding

/-! ## Encoded archives -/

section Chunks

variable {α : Type}

theorem chunks_eq_nil_iff {size : Nat} {xs : List α} : chunks size xs = [] ↔ xs = [] := by
  constructor
  · intro h
    rw [← flatten_chunks size xs, h]
    rfl
  · rintro rfl
    rw [chunks]

/-- No chunk is empty. -/
theorem ne_nil_of_mem_chunks {size : Nat} {xs chunk : List α} (h : chunk ∈ chunks size xs) : chunk ≠ [] := by
  fun_induction chunks size xs with
  | case1 => exact absurd h List.not_mem_nil
  | case2 x xs ih =>
      rcases List.mem_cons.mp h with rfl | hmem
      · exact List.cons_ne_nil _ _
      · exact ih hmem

/-- One chunk suffices for a list that is no longer than a chunk. -/
theorem length_chunks_le_one_iff {size : Nat} (hsize : 0 < size) {xs : List α} :
    (chunks size xs).length ≤ 1 ↔ xs.length ≤ size := by
  cases xs with
  | nil => simp [chunks]
  | cons x xs =>
      have hrest : (chunks size (xs.drop (size - 1))).length = 0 ↔ xs.length ≤ size - 1 := by
        rw [List.length_eq_zero_iff, chunks_eq_nil_iff, List.drop_eq_nil_iff]
      rw [chunks, List.length_cons, List.length_cons]
      omega

end Chunks

theorem Writer.ne_nil_of_mem_chunksOf {columns : Columns} {chunk : Column × List Int64}
    (h : chunk ∈ chunksOf columns) : chunk.2 ≠ [] := by
  obtain ⟨column, -, hmem⟩ := List.mem_flatMap.mp h
  obtain ⟨values, hvalues, rfl⟩ := List.mem_map.mp hmem
  exact ne_nil_of_mem_chunks hvalues

/-- A column has as many blocks as chunks. -/
theorem Writer.countP_chunksOf (columns : Columns) (column : Column) :
    (chunksOf columns).countP (·.1 = column) = (chunks blockSize (columns.get column)).length := by
  have hown (other : Column) :
      ((chunks blockSize (columns.get other)).map (other, ·)).countP (·.1 = column)
        = if other = column then (chunks blockSize (columns.get other)).length else 0 := by
    rw [List.countP_map]
    by_cases hcolumn : other = column
    · rw [if_pos hcolumn]
      exact List.countP_eq_length.mpr fun _ _ => decide_eq_true hcolumn
    · rw [if_neg hcolumn]
      exact List.countP_eq_zero.mpr fun _ _ h => hcolumn (of_decide_eq_true h)
  simp only [chunksOf, Column.all, List.flatMap_cons, List.flatMap_nil, List.append_nil, List.countP_append, hown]
  cases column <;> simp

theorem exists_of_forall₂_left {α β : Type} {R : α → β → Prop} {xs : List α} {ys : List β}
    (h : List.Forall₂ R xs ys) {x : α} (hmem : x ∈ xs) : ∃ y ∈ ys, R x y := by
  induction h with
  | nil => exact absurd hmem List.not_mem_nil
  | @cons first second xs ys hfirst _ ih =>
      rcases List.mem_cons.mp hmem with rfl | hmem
      · exact ⟨second, List.mem_cons_self, hfirst⟩
      · obtain ⟨y, hy, hrelated⟩ := ih hmem
        exact ⟨y, List.mem_cons_of_mem _ hy, hrelated⟩

/-- An archive of which no block can be changed or removed unnoticed: it is balanced, no block is without values,
    and there are lengths. -/
structure Archive.Full (archive : Archive) : Prop where
  wellFormed : ∀ block ∈ archive.blocks, block.WellFormed
  balanced : Balanced (archive.blocks.map (·.header))
  filled : ∀ block ∈ archive.blocks, block.header.contribution ≠ 0
  lengths : ∃ block ∈ archive.blocks, block.header.column = .snapshotLen

section Encoded

variable (config : Config) (snapshots : List Snapshot)

/-- A new writer has written the blocks of an encoded archive. -/
theorem writes_encodedArchive :
    ∃ target, (Session.initialWriter config).Writes (Writer.chunksOf (.ofSnapshots snapshots))
      (encodedArchive config snapshots).blocks target :=
  ⟨_, Writer.writes_writeChunks (Session.sound_initialWriter config) _
    fun _ hmem => Writer.length_le_of_mem_chunksOf hmem⟩

/-- The blocks of an encoded archive are read as the chunks of the columns. -/
theorem readBlocks_encodedArchive (offset : Nat) :
    ∃ last, Context.withDictionary.readBlocks (place offset (encodedArchive config snapshots).blocks)
      = .ok (Writer.chunksOf (.ofSnapshots snapshots), last) := by
  obtain ⟨target, hwrites⟩ := writes_encodedArchive config snapshots
  obtain ⟨plans, hplans, hleads⟩ := hwrites.trace
  have hread := (hleads.read offset).1
  rw [Session.counterpart_initialWriter, hplans] at hread
  exact ⟨_, hread⟩

/-- The blocks of a column contribute the column. -/
theorem contributed_encodedArchive (column : Column) :
    contributed ((encodedArchive config snapshots).blocks.map (·.header)) column
      = ((Columns.ofSnapshots snapshots).get column).length := by
  obtain ⟨last, hread⟩ := readBlocks_encodedArchive config snapshots 0
  rw [← map_header_place 0, ← Context.length_valuesOf hread, Writer.valuesOf_chunksOf]

/-- The blocks of lengths are as many as the chunks of lengths. -/
theorem countP_encodedArchive (column : Column) :
    (encodedArchive config snapshots).blocks.countP (·.header.column = column)
      = (chunks blockSize ((Columns.ofSnapshots snapshots).get column)).length := by
  obtain ⟨last, hread⟩ := readBlocks_encodedArchive config snapshots 0
  have hcolumns := Context.map_fst_readBlocks hread
  have hplaced := List.countP_map (p := fun block : Block => decide (block.header.column = column))
    (f := PlacedBlock.toBlock) (l := place 0 (encodedArchive config snapshots).blocks)
  rw [map_toBlock_place] at hplaced
  rw [hplaced, ← Writer.countP_chunksOf]
  have hmapped := congrArg (List.countP (· = column)) hcolumns
  rw [List.countP_map, List.countP_map] at hmapped
  exact hmapped.symm

/-- **An encoded archive is full**, unless there are no snapshots in it. -/
theorem full_encodedArchive (hsome : snapshots ≠ []) : (encodedArchive config snapshots).Full where
  wellFormed := by
    obtain ⟨target, hwrites⟩ := writes_encodedArchive config snapshots
    obtain ⟨plans, -, hleads⟩ := hwrites.trace
    exact hleads.wellFormed
  balanced := by
    intro column
    rw [contributed_encodedArchive, contributed_encodedArchive]
    cases column <;> simp [Columns.ofSnapshots, Columns.get, Column.partner]
  filled := by
    intro block hmem
    obtain ⟨last, hread⟩ := readBlocks_encodedArchive config snapshots 0
    have hholds := Context.holds_of_readBlocks hread
    rw [map_header_place] at hholds
    obtain ⟨chunk, hchunk, hblock⟩ := exists_of_forall₂_left hholds (List.mem_map_of_mem hmem)
    rw [hblock.contribution]
    exact mt List.length_eq_zero_iff.mp (Writer.ne_nil_of_mem_chunksOf hchunk)
  lengths := by
    have hcount : (encodedArchive config snapshots).blocks.countP (·.header.column = .snapshotLen) ≠ 0 := by
      rw [countP_encodedArchive]
      intro hzero
      rw [List.length_eq_zero_iff, chunks_eq_nil_iff] at hzero
      exact hsome (List.map_eq_nil_iff.mp hzero)
    obtain ⟨block, hmem, hcolumn⟩ := List.countP_pos_iff.mp (Nat.pos_of_ne_zero hcount)
    exact ⟨block, hmem, of_decide_eq_true hcolumn⟩

/-- Blocks of lengths are plain. -/
theorem codec?_of_lengthBlock {block : Block} (hmem : block ∈ (encodedArchive config snapshots).blocks)
    (hcolumn : block.header.column = .snapshotLen) : block.header.codec? = some .varintDelta := by
  obtain ⟨target, hwrites⟩ := writes_encodedArchive config snapshots
  obtain ⟨chunk, -, hrouted⟩ := exists_of_forall₂_left hwrites.routed hmem
  refine (hrouted.plain ?_).2
  rw [← hrouted.column, hcolumn]
  rfl

/-- **There is one block of lengths** exactly if one block holds them all. -/
theorem isLast_lengthBlock_iff {before after : List Block} {block : Block}
    (hblocks : (encodedArchive config snapshots).blocks = before ++ block :: after)
    (hcolumn : block.header.column = .snapshotLen) :
    (∀ other ∈ before ++ after, other.header.column ≠ .snapshotLen) ↔ snapshots.length ≤ blockSize := by
  have hcount := countP_encodedArchive config snapshots .snapshotLen
  have hlengths : ((Columns.ofSnapshots snapshots).get .snapshotLen).length = snapshots.length := List.length_map _
  rw [hblocks, List.countP_append, List.countP_cons_of_pos (by exact decide_eq_true hcolumn)] at hcount
  rw [← hlengths, ← length_chunks_le_one_iff (by decide), ← hcount]
  have hnone : (∀ other ∈ before ++ after, other.header.column ≠ .snapshotLen) ↔
      (before ++ after).countP (·.header.column = .snapshotLen) = 0 := by
    rw [List.countP_eq_zero]
    simp only [decide_eq_true_eq]
  rw [hnone, List.countP_append]
  omega

end Encoded

end SnapshotArchive

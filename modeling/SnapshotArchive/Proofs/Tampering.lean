import SnapshotArchive.Proofs.Balance

/-!
# `Proofs.Tampering` — archives with a block changed or missing

A block that is changed is still read as a block of its column. Its payload may even be read as another number of
values: bit fields can be fewer, and padding can pass for more. A block of an unknown codec is skipped without a word.
In all these cases it is the balance of the columns that gives the change away, since a block is never without
values. The same goes for a block that is cut out, with one exception: without its only block of lengths, a short
archive has the layout of one item for each snapshot (`decode_without_lengths`).

## Contents
- **Edits.** `overwrite`, `cutOut`, and what they make of a printed archive.
- **Too many items.** `failsWith_of_overfull`.
- **Changed blocks.** `Archive.Full.failsWith_replaced`, `decode_tampered`.
- **Missing blocks.** `Archive.Full.failsWith_removed`, `decode_without_lengths`, `decode_cutOut`.
-/

namespace SnapshotArchive

/-! ## Edits -/

/-- The bytes with some of them replaced from a position on. -/
def overwrite (bytes : Bytes) (position : Nat) (patch : Bytes) : Bytes :=
  bytes.take position ++ patch ++ bytes.drop (position + patch.length)

/-- The bytes without those of a range. -/
def cutOut (bytes : Bytes) (position size : Nat) : Bytes :=
  bytes.take position ++ bytes.drop (position + size)

/-- A field is overwritten by another one of its size. -/
theorem overwrite_field {bytes result front old patch rest : Bytes} {position : Nat}
    (hbytes : bytes = front ++ old ++ rest) (hposition : front.length = position) (hsize : old.length = patch.length)
    (hresult : result = front ++ patch ++ rest) : overwrite bytes position patch = result := by
  have hdrop : (front ++ old ++ rest).drop (front.length + patch.length) = rest := by
    rw [← hsize, ← List.length_append, List.drop_left]
  rw [hresult, overwrite, hbytes, ← hposition, hdrop, List.append_assoc front old rest, List.take_left]

theorem cutOut_append (front old rest : Bytes) :
    cutOut (front ++ old ++ rest) front.length old.length = front ++ rest := by
  rw [cutOut, ← List.length_append, List.drop_left, List.append_assoc, List.take_left]

/-- The elements around one element of a list, and that element. -/
theorem mem_around_iff {α : Type} {x y : α} {before after : List α} :
    x ∈ before ++ y :: after ↔ x = y ∨ x ∈ before ++ after := by
  simp only [List.mem_append, List.mem_cons]
  exact or_left_comm

/-- Every placed block stands behind the blocks before it. -/
theorem exists_split_of_mem_place {offset : Nat} {blocks : List Block} {placed : PlacedBlock}
    (h : placed ∈ place offset blocks) :
    ∃ before after, blocks = before ++ placed.toBlock :: after ∧ placed.offset = offset + totalSize before := by
  induction blocks generalizing offset with
  | nil => exact absurd h List.not_mem_nil
  | cons block blocks ih =>
      rcases List.mem_cons.mp h with rfl | hmem
      · exact ⟨[], blocks, rfl, rfl⟩
      · obtain ⟨before, after, hblocks, hoffset⟩ := ih hmem
        refine ⟨block :: before, after, ?_, ?_⟩
        · rw [hblocks]
          rfl
        · rw [hoffset, totalSize, Nat.add_assoc]

section Edits

variable (flags : UInt32) (before after : List Block) (block : Block)

/-- The bytes in front of the blocks that follow some others. -/
def frontOf (flags : UInt32) (before : List Block) : Bytes :=
  FileHeader.print { flags } ++ before.flatMap Block.print

theorem length_frontOf : (frontOf flags before).length = FileHeader.size + totalSize before := by
  rw [frontOf, List.length_append, FileHeader.length_print, length_flatMap_print]

theorem print_split :
    Archive.print { flags, blocks := before ++ block :: after } =
      frontOf flags before ++ block.print ++ (after.flatMap Block.print ++ [endMarker]) := by
  simp only [Archive.print, frontOf, List.flatMap_append, List.flatMap_cons, List.append_assoc]

/-- Other bytes in place of the item count are another item count. -/
theorem overwrite_itemCount (count : UInt32) :
    overwrite (Archive.print { flags, blocks := before ++ block :: after })
        (FileHeader.size + totalSize before + 2) (littleEndian 4 count.toNat) =
      Archive.print {
        flags
        blocks := before ++ { block with header := { block.header with itemCount := count } } :: after } := by
  let front := frontOf flags before ++ [block.header.column.id, block.header.codecId]
  let rest := littleEndian 4 block.header.payloadSize.toNat ++ [block.header.flags] ++ block.payload
    ++ (after.flatMap Block.print ++ [endMarker])
  have hfront : front.length = FileHeader.size + totalSize before + 2 := by
    rw [List.length_append, length_frontOf]
    rfl
  have hbytes (any : UInt32) :
      Archive.print {
        flags
        blocks := before ++ { block with header := { block.header with itemCount := any } } :: after }
        = front ++ littleEndian 4 any.toNat ++ rest := by
    rw [print_split]
    simp only [front, rest, Block.print, BlockHeader.print, List.append_assoc, List.cons_append, List.nil_append]
  refine overwrite_field (hbytes block.header.itemCount) hfront ?_ (hbytes count)
  rw [length_littleEndian, length_littleEndian]

/-- Another byte in place of the codec id is another codec id. -/
theorem overwrite_codecId (codecId : UInt8) :
    overwrite (Archive.print { flags, blocks := before ++ block :: after })
        (FileHeader.size + totalSize before + 1) [codecId] =
      Archive.print {
        flags
        blocks := before ++ { block with header := { block.header with codecId } } :: after } := by
  let front := frontOf flags before ++ [block.header.column.id]
  let rest := littleEndian 4 block.header.itemCount.toNat ++ littleEndian 4 block.header.payloadSize.toNat
    ++ [block.header.flags] ++ block.payload ++ (after.flatMap Block.print ++ [endMarker])
  have hfront : front.length = FileHeader.size + totalSize before + 1 := by
    rw [List.length_append, length_frontOf]
    rfl
  have hbytes (any : UInt8) :
      Archive.print {
        flags
        blocks := before ++ { block with header := { block.header with codecId := any } } :: after }
        = front ++ [any] ++ rest := by
    rw [print_split]
    simp only [front, rest, Block.print, BlockHeader.print, List.append_assoc, List.cons_append, List.nil_append]
  exact overwrite_field (hbytes block.header.codecId) hfront rfl (hbytes codecId)

/-- A block that is cut out is not there. -/
theorem cutOut_block :
    cutOut (Archive.print { flags, blocks := before ++ block :: after })
        (FileHeader.size + totalSize before) block.size =
      Archive.print { flags, blocks := before ++ after } := by
  rw [print_split, ← length_frontOf, ← Block.length_print, cutOut_append]
  simp only [Archive.print, frontOf, List.flatMap_append, List.append_assoc]

end Edits

/-! ## Too many items -/

theorem BlockHeader.parse_overfull {header : BlockHeader} (h : maxBlockItems < header.itemCount.toNat) :
    parse header.print = .error (.tooManyBlockItems header.itemCount.toNat) := by
  have hcolumn : header.print.getD 0 0 = header.column.id := rfl
  have hitems : ofLittleEndian ((header.print.drop 2).take 4) = header.itemCount.toNat := by
    rw [← ofLittleEndian_word header.itemCount]
    rfl
  unfold parse
  simp only [hcolumn, Column.ofId?_id, hitems]
  rw [if_pos h]

/-- The blocks at the front of a region are the first blocks of the region. -/
theorem parseBlocks_append {blocks : List Block} (h : ∀ block ∈ blocks, block.WellFormed) (rest : Bytes)
    (offset : Nat) :
    parseBlocks offset (blocks.flatMap Block.print ++ rest)
      = (parseBlocks (offset + totalSize blocks) rest).map (place offset blocks ++ ·) := by
  induction blocks generalizing offset with
  | nil =>
      show parseBlocks offset rest = (parseBlocks offset rest).map id
      cases parseBlocks offset rest <;> rfl
  | cons block blocks ih =>
      have hblock := parseBlock_print (h block List.mem_cons_self) offset (blocks.flatMap Block.print ++ rest)
      rw [List.flatMap_cons, List.append_assoc, parseBlocks_of_parseBlock hblock,
        ih (fun other hother => h other (List.mem_cons_of_mem _ hother)), totalSize, Nat.add_assoc]
      cases parseBlocks (offset + (block.size + totalSize blocks)) rest <;> rfl

/-- A block that declares too many items is not even framed. -/
theorem failsWith_of_overfull (flags : UInt32) {before after : List Block} {block : Block}
    (hwell : ∀ other ∈ before, other.WellFormed) (h : maxBlockItems < block.header.itemCount.toNat) :
    FailsWith Fault.Kind.isRecognized (decode (Archive.print { flags, blocks := before ++ block :: after })) := by
  let rest := block.payload ++ after.flatMap Block.print
  have hregion : (before ++ block :: after).flatMap Block.print
      = before.flatMap Block.print ++ (block.header.print ++ rest) := by
    simp only [rest, List.flatMap_append, List.flatMap_cons, Block.print, List.append_assoc]
  have hheader := takeExactly?_append block.header.print rest
  rw [BlockHeader.length_print] at hheader
  have hblock (offset : Nat) : parseBlock offset (block.header.print ++ rest)
      = .error (.tooManyBlockItems block.header.itemCount.toNat) := by
    rw [parseBlock, hheader]
    simp only [BlockHeader.parse_overfull h]
    rfl
  have hne : block.header.print ++ rest ≠ [] := List.cons_ne_nil _ _
  have hblocks : parseBlocks FileHeader.size ((before ++ block :: after).flatMap Block.print)
      = .error (.tooManyBlockItems block.header.itemCount.toNat) := by
    rw [hregion, parseBlocks_append hwell, parseBlocks_of_error hne (hblock _)]
    rfl
  have hparse : FailsWith Fault.Kind.isRecognized
      (parseArchive (Archive.print { flags, blocks := before ++ block :: after })) := by
    refine ⟨.tooManyBlockItems block.header.itemCount.toNat, ?_, rfl⟩
    unfold parseArchive Archive.print
    rw [openFrame_print]
    show (parseBlocks FileHeader.size _ >>= _) = _
    rw [hblocks]
    rfl
  exact hparse.bind _

/-! ## Changed blocks -/

namespace Archive.Full

variable {archive : Archive} {before after : List Block} {block other : Block}

/-- **A block that contributes differently is noticed.** -/
theorem failsWith_replaced (h : archive.Full) (hblocks : archive.blocks = before ++ block :: after)
    (hother : other.WellFormed) (hcolumn : other.header.column = block.header.column)
    (hne : other.header.contribution ≠ block.header.contribution) :
    FailsWith Fault.Kind.isRecognized
      (decode (Archive.print { flags := archive.flags, blocks := before ++ other :: after })) := by
  have hwell := h.wellFormed
  have hbalanced := h.balanced
  obtain ⟨lengthBlock, hmem, hlength⟩ := h.lengths
  rw [hblocks] at hwell hbalanced hmem
  rw [List.map_append, List.map_cons] at hbalanced
  apply failsWith_of_unbalanced
  · intro each heach
    rcases mem_around_iff.mp heach with rfl | hrest
    · exact hother
    · exact hwell each (mem_around_iff.mpr (.inr hrest))
  · -- the columns are the same as before
    rcases mem_around_iff.mp hmem with rfl | hrest
    · exact ⟨other, mem_around_iff.mpr (.inl rfl), hcolumn.trans hlength⟩
    · exact ⟨lengthBlock, mem_around_iff.mpr (.inr hrest), hlength⟩
  · show ¬Balanced ((before ++ other :: after).map (·.header))
    rw [List.map_append, List.map_cons]
    exact hbalanced.replaced hcolumn hne

/-- A block of a full archive is of a known codec and declares values. -/
theorem contribution_eq (h : archive.Full) (hmem : block ∈ archive.blocks) :
    block.header.codec?.isSome = true ∧ block.header.contribution = block.header.itemCount.toNat := by
  have hfilled := h.filled block hmem
  unfold BlockHeader.contribution at hfilled ⊢
  split at hfilled
  · rename_i hknown
    exact ⟨hknown, if_pos hknown⟩
  · exact absurd rfl hfilled

end Archive.Full

/-- The placed blocks of an encoded archive. -/
theorem parseArchiveBlocks_encode {config : Config} {snapshots : List Snapshot} {sink : Option Sink} {bytes : Bytes}
    (hencode : encode config snapshots sink = .ok bytes) (hsome : snapshots ≠ []) :
    parseArchiveBlocks bytes = .ok (place FileHeader.size (encodedArchive config snapshots).blocks) := by
  have hwell := (full_encodedArchive config snapshots hsome).wellFormed
  rw [encode_eq_ok hencode]
  exact parseArchiveBlocks_eq_ok_iff.mpr ⟨_, parseArchive_print _ hwell⟩

/-- The archive around one of its blocks. -/
theorem encode_around {config : Config} {snapshots : List Snapshot} {sink : Option Sink} {bytes : Bytes}
    {placed : PlacedBlock} (hencode : encode config snapshots sink = .ok bytes)
    (hplaced : placed ∈ place FileHeader.size (encodedArchive config snapshots).blocks) :
    ∃ before after, (encodedArchive config snapshots).blocks = before ++ placed.toBlock :: after ∧
      placed.offset = FileHeader.size + totalSize before ∧
      bytes = Archive.print { flags := fieldwiseTimestamps, blocks := before ++ placed.toBlock :: after } := by
  obtain ⟨before, after, hblocks, hoffset⟩ := exists_split_of_mem_place hplaced
  refine ⟨before, after, hblocks, hoffset, ?_⟩
  rw [encode_eq_ok hencode, ← hblocks]
  rfl

/-- **Tampering with what a block contributes is noticed.** Encode any snapshots with any configuration and take any
    block of the archive. Put any other number in place of its item count, or any byte in place of its codec id that
    is the id of no codec: decoding ends in a fault that is recognized, and gives no snapshots. -/
theorem decode_tampered {config : Config} {snapshots : List Snapshot} {sink : Option Sink} {bytes : Bytes}
    (hencode : encode config snapshots sink = .ok bytes) (hsome : snapshots ≠ []) :
    ∃ blocks, parseArchiveBlocks bytes = .ok blocks ∧ ∀ block ∈ blocks,
      (∀ count : UInt32, count ≠ block.header.itemCount →
        FailsWith Fault.Kind.isRecognized
          (decode (overwrite bytes (block.offset + 2) (littleEndian 4 count.toNat)))) ∧
      ∀ codecId : UInt8, Codec.ofId? codecId = none →
        FailsWith Fault.Kind.isRecognized (decode (overwrite bytes (block.offset + 1) [codecId])) := by
  have hfull := full_encodedArchive config snapshots hsome
  refine ⟨_, parseArchiveBlocks_encode hencode hsome, ?_⟩
  intro placed hplaced
  obtain ⟨before, after, hblocks, hoffset, hbytes⟩ := encode_around hencode hplaced
  have hmem : placed.toBlock ∈ (encodedArchive config snapshots).blocks :=
    hblocks ▸ mem_around_iff.mpr (.inl rfl)
  have hwell := hfull.wellFormed placed.toBlock hmem
  obtain ⟨hknown, hcontribution⟩ := hfull.contribution_eq hmem
  refine ⟨?_, ?_⟩
  · intro count hcount
    rw [hbytes, hoffset, overwrite_itemCount]
    by_cases hoverfull : maxBlockItems < count.toNat
    · refine failsWith_of_overfull fieldwiseTimestamps ?_ hoverfull
      intro other hother
      exact hfull.wellFormed other (hblocks ▸ List.mem_append_left _ hother)
    · refine hfull.failsWith_replaced hblocks ⟨Nat.not_lt.mp hoverfull, hwell.payloadSize_eq⟩ rfl ?_
      have hdeclared : BlockHeader.contribution { placed.header with itemCount := count } = count.toNat :=
        if_pos hknown
      rw [hcontribution]
      exact fun hsame => hcount (UInt32.toNat_inj.mp (hdeclared.symm.trans hsame))
  · intro codecId hunknown
    rw [hbytes, hoffset, overwrite_codecId]
    refine hfull.failsWith_replaced hblocks ⟨hwell.itemCount_le, hwell.payloadSize_eq⟩ rfl ?_
    have hskipped : BlockHeader.contribution { placed.header with codecId } = 0 := by
      refine if_neg ?_
      show ¬(Codec.ofId? codecId).isSome = true
      rw [hunknown]
      exact nofun
    exact fun hsame => hfull.filled placed.toBlock hmem (hsame.symm.trans hskipped)

/-- Two snapshots, one of them with two items. -/
def twoSnapshots : List Snapshot := [.ofEntries 1000 [(7, ⟨250, 3⟩), (-2, ⟨-40, 1⟩)], .ofEntries 1060 [(7, ⟨251, 3⟩)]]

/-- Five blocks, each of which may be tampered with. -/
theorem decode_tampered_twoSnapshots :
    ∃ bytes, encode { runId := "run" } twoSnapshots = .ok bytes ∧
      ∃ blocks, parseArchiveBlocks bytes = .ok blocks ∧ ∀ block ∈ blocks,
        (block.header.itemCount ≠ 7 →
          FailsWith Fault.Kind.isRecognized (decode (overwrite bytes (block.offset + 2) [7, 0, 0, 0]))) ∧
        FailsWith Fault.Kind.isRecognized (decode (overwrite bytes (block.offset + 1) [77])) := by
  have hvalid : ({ runId := "run" } : Config).validate = .ok () := rfl
  obtain ⟨bytes, hencode⟩ := exists_encode hvalid twoSnapshots none nofun
  obtain ⟨blocks, hparse, hblocks⟩ := decode_tampered hencode (List.cons_ne_nil _ _)
  refine ⟨bytes, hencode, blocks, hparse, ?_⟩
  intro block hmem
  obtain ⟨hcount, hcodec⟩ := hblocks block hmem
  exact ⟨fun hne => hcount 7 hne.symm, hcodec 77 (by decide)⟩

/-! ## Missing blocks -/

/-- **A missing block is noticed** as long as a block of lengths is left. -/
theorem Archive.Full.failsWith_removed {archive : Archive} {before after : List Block} {block : Block}
    (h : archive.Full) (hblocks : archive.blocks = before ++ block :: after)
    (hlengths : ∃ other ∈ before ++ after, other.header.column = .snapshotLen) :
    FailsWith Fault.Kind.isRecognized
      (decode (Archive.print { flags := archive.flags, blocks := before ++ after })) := by
  have hwell := h.wellFormed
  have hbalanced := h.balanced
  have hfilled := h.filled block (hblocks ▸ mem_around_iff.mpr (.inl rfl))
  rw [hblocks] at hwell hbalanced
  rw [List.map_append, List.map_cons] at hbalanced
  refine failsWith_of_unbalanced (fun each heach => hwell each (mem_around_iff.mpr (.inr heach))) hlengths ?_
  show ¬Balanced ((before ++ after).map (·.header))
  rw [List.map_append]
  exact hbalanced.removed hfilled

/-- A plain block leaves the context as it was. -/
theorem Context.readBlock_plain {context next : Context} {block : PlacedBlock} {values : List Int64}
    (hplain : block.header.column.isMonitored = false) (hcodec : block.header.codec? = some .varintDelta)
    (h : context.readBlock block = .ok (values, next)) : next = context := by
  rcases readBlock_eq_ok h with ⟨hnone, -, -⟩ | ⟨codec, residuals, moved, hsome, hread, -, -, rfl⟩
  · rw [hcodec] at hnone
    cases hnone
  · have hvarint : codec = .varintDelta := Option.some.inj (hsome.symm.trans hcodec)
    obtain ⟨rfl, -⟩ := readPayload_of_ne (by rw [hvarint]; exact nofun) hread
    -- neither a track nor the dictionary has moved
    have hfollow : moved.follow block.header.column codec residuals = moved := by
      cases hcolumn : block.header.column with
      | time | value =>
          rw [hcolumn] at hplain
          cases hplain
      | snapshotLen | itemId | quantity => rfl
    rw [hfollow, ite_self]

/-- **Without its only block of lengths, an encoded archive is one of another layout**: each timestamp gets one
    price. -/
theorem decode_without_lengths {config : Config} {snapshots : List Snapshot} {before after : List Block}
    {block : Block} (hsome : snapshots ≠ [])
    (hblocks : (encodedArchive config snapshots).blocks = before ++ block :: after)
    (hcolumn : block.header.column = .snapshotLen)
    (hlast : ∀ other ∈ before ++ after, other.header.column ≠ .snapshotLen) :
    decode (Archive.print { flags := fieldwiseTimestamps, blocks := before ++ after }) =
      .ok (Columns.assembleSingles (Columns.ofSnapshots snapshots).times (Columns.ofSnapshots snapshots).prices) := by
  have hmem : block ∈ (encodedArchive config snapshots).blocks :=
    hblocks ▸ mem_around_iff.mpr (.inl rfl)
  have hcodec := codec?_of_lengthBlock config snapshots hmem hcolumn
  have hwell := (full_encodedArchive config snapshots hsome).wellFormed
  obtain ⟨last, hread⟩ := readBlocks_encodedArchive config snapshots FileHeader.size
  rw [hblocks] at hwell hread
  rw [place_append, place] at hread
  obtain ⟨front, next, tail, hfront, htail, hchunks⟩ := Context.readBlocks_append_eq_ok.mp hread
  obtain ⟨values, between, back, hblock, hback, rfl⟩ := Context.readBlocks_cons_eq_ok.mp htail
  obtain rfl := Context.readBlock_plain (by exact congrArg Column.isMonitored hcolumn) hcodec hblock
  -- the blocks behind are read where they are now
  have hmoved : between.readBlocks (place (FileHeader.size + totalSize before) after) = .ok (back, last) := by
    refine Context.readBlocks_of_map_toBlock ?_ hback
    rw [map_toBlock_place, map_toBlock_place]
  have hrest : Context.withDictionary.readBlocks (place FileHeader.size (before ++ after))
      = .ok (front ++ back, last) := by
    rw [place_append]
    exact Context.readBlocks_append_eq_ok.mpr ⟨front, between, back, hfront, hmoved, rfl⟩
  have hvalues (column : Column) (hne : column ≠ .snapshotLen) :
      Columns.valuesOf column (front ++ back) = (Columns.ofSnapshots snapshots).get column := by
    rw [← Writer.valuesOf_chunksOf, hchunks, Columns.valuesOf_append, Columns.valuesOf_append]
    refine congrArg (Columns.valuesOf column front ++ ·) ?_
    show _ = (if block.header.column = column then values else []) ++ Columns.valuesOf column back
    rw [hcolumn, if_neg hne.symm]
    rfl
  have hwell' : ∀ other ∈ before ++ after, other.WellFormed :=
    fun other hother => hwell other (mem_around_iff.mpr (.inr hother))
  have hdecode : decode (Archive.print { flags := fieldwiseTimestamps, blocks := before ++ after }) = _ :=
    decode_of_no_lengths hwell' hlast hrest
  rw [hvalues .time (by decide), hvalues .value (by decide)] at hdecode
  exact hdecode

/-- **A lost block is noticed, except for the lengths of a short archive.** Encode any snapshots with any
    configuration and cut any block out of the archive. Decoding ends in a fault that is recognized, unless the block
    held the lengths of all snapshots, which are then no more than fit into a block. Without any lengths the archive
    has the layout of one item for each snapshot, and is decoded as such: the timestamps are paired with the prices,
    as long as both last. -/
theorem decode_cutOut {config : Config} {snapshots : List Snapshot} {sink : Option Sink} {bytes : Bytes}
    (hencode : encode config snapshots sink = .ok bytes) (hsome : snapshots ≠ []) :
    ∃ blocks, parseArchiveBlocks bytes = .ok blocks ∧ ∀ block ∈ blocks,
      (¬(block.header.column = .snapshotLen ∧ snapshots.length ≤ blockSize) →
        FailsWith Fault.Kind.isRecognized (decode (cutOut bytes block.offset block.size))) ∧
      (block.header.column = .snapshotLen ∧ snapshots.length ≤ blockSize →
        decode (cutOut bytes block.offset block.size) = .ok (Columns.assembleSingles
          (Columns.ofSnapshots snapshots).times (Columns.ofSnapshots snapshots).prices)) := by
  have hfull := full_encodedArchive config snapshots hsome
  refine ⟨_, parseArchiveBlocks_encode hencode hsome, ?_⟩
  intro placed hplaced
  obtain ⟨before, after, hblocks, hoffset, hbytes⟩ := encode_around hencode hplaced
  rw [hbytes, hoffset, cutOut_block]
  refine ⟨?_, ?_⟩
  · intro hother
    refine hfull.failsWith_removed hblocks ?_
    by_cases hcolumn : placed.header.column = .snapshotLen
    · -- the lengths fill more than one block
      have hlong : ¬snapshots.length ≤ blockSize := fun hshort => hother ⟨hcolumn, hshort⟩
      rw [← isLast_lengthBlock_iff config snapshots hblocks hcolumn] at hlong
      by_contra hnone
      exact hlong fun other hmem hlength => hnone ⟨other, hmem, hlength⟩
    · obtain ⟨lengthBlock, hmem, hlength⟩ := hfull.lengths
      rcases mem_around_iff.mp (hblocks ▸ hmem) with rfl | hrest
      · exact absurd hlength hcolumn
      · exact ⟨lengthBlock, hrest, hlength⟩
  · rintro ⟨hcolumn, hshort⟩
    exact decode_without_lengths hsome hblocks hcolumn
      ((isLast_lengthBlock_iff config snapshots hblocks hcolumn).mpr hshort)

/-- The items of a short archive are dealt out anew when its lengths are lost: one for each timestamp. -/
theorem decode_cutOut_twoSnapshots :
    ∃ bytes, encode { runId := "run" } twoSnapshots = .ok bytes ∧
      ∃ blocks, parseArchiveBlocks bytes = .ok blocks ∧ ∀ block ∈ blocks,
        (block.header.column ≠ .snapshotLen →
          FailsWith Fault.Kind.isRecognized (decode (cutOut bytes block.offset block.size))) ∧
        (block.header.column = .snapshotLen →
          decode (cutOut bytes block.offset block.size)
            = .ok [.ofEntries 1000 [(1, ⟨-40, 1⟩)], .ofEntries 1060 [(1, ⟨250, 1⟩)]]) := by
  have hvalid : ({ runId := "run" } : Config).validate = .ok () := rfl
  obtain ⟨bytes, hencode⟩ := exists_encode hvalid twoSnapshots none nofun
  obtain ⟨blocks, hparse, hblocks⟩ := decode_cutOut hencode (List.cons_ne_nil _ _)
  refine ⟨bytes, hencode, blocks, hparse, ?_⟩
  intro block hmem
  obtain ⟨hnoticed, hlost⟩ := hblocks block hmem
  exact ⟨fun hcolumn => hnoticed fun h => hcolumn h.1, fun hcolumn => hlost ⟨hcolumn, by decide⟩⟩

/-- **The loss of a block can pass unnoticed**: without its lengths, an archive of one snapshot is decoded, but as
    another snapshot. -/
theorem decode_cutOut_oneSnapshot :
    ∃ bytes blocks block,
      encode { runId := "run" } [.ofEntries 1 [(1, ⟨2, 3⟩)]] = .ok bytes ∧
      parseArchiveBlocks bytes = .ok blocks ∧ block ∈ blocks ∧
      decode (cutOut bytes block.offset block.size) = .ok [.ofEntries 1 [(1, ⟨2, 1⟩)]] := by
  let snapshots : List Snapshot := [.ofEntries 1 [(1, ⟨2, 3⟩)]]
  have hvalid : ({ runId := "run" } : Config).validate = .ok () := rfl
  obtain ⟨bytes, hencode⟩ := exists_encode hvalid snapshots none nofun
  have hsome : snapshots ≠ [] := List.cons_ne_nil _ _
  obtain ⟨block, hmem, hcolumn⟩ := (full_encodedArchive { runId := "run" } snapshots hsome).lengths
  rw [← map_toBlock_place FileHeader.size (encodedArchive _ snapshots).blocks] at hmem
  obtain ⟨placed, hplaced, rfl⟩ := List.mem_map.mp hmem
  refine ⟨bytes, _, placed, hencode, parseArchiveBlocks_encode hencode hsome, hplaced, ?_⟩
  obtain ⟨before, after, hblocks, hoffset, hbytes⟩ := encode_around hencode hplaced
  rw [hbytes, hoffset, cutOut_block]
  exact decode_without_lengths hsome hblocks hcolumn
    ((isLast_lengthBlock_iff _ snapshots hblocks hcolumn).mpr (by decide))

end SnapshotArchive

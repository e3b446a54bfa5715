import SnapshotArchive.Proofs.Framing
import SnapshotArchive.Proofs.Guarded

/-!
# `Proofs.InPlaceFraming` — the framing, read in place

The parsers of `Frame.Archive` take a byte string apart. The readers here do the same with positions into the one
buffer: they slice off the region between file header and end marker, pick the bytes of headers by index, add up
positions and subtract lengths, and each of these operations traps when it is out of range. Every reader equals
its parser, `safely`: on no byte string at all does one of them leave the buffer.

## Contents
- **File header.** `InPlace.checkMagic`, `InPlace.parseHeader`, `InPlace.openFrame`.
- **Blocks.** `InPlace.parseBlockHeader`, `InPlace.parseBlock`, `InPlace.parseBlocks`.
- **Archives.** `InPlace.parseFileHeader`, `InPlace.parseArchive`, `InPlace.parseArchiveBlocks` and
  `InPlace.parseFileHeader_eq`, `InPlace.parseArchive_eq`, `InPlace.parseArchiveBlocks_eq`.
-/

namespace SnapshotArchive.InPlace

open Guarded

/-! ## File header -/

/-- Compare the first bytes with the magic. -/
def checkMagic (bytes : Bytes) : Guarded Unit :=
  if bytes.length < magic.length then
    if bytes <+: magic then throw (.shortMagic bytes.length) else throw .foreignMagic
  else do
    let front ← slice bytes 0 magic.length
    if front ≠ magic then throw .foreignMagic else pure ()

/-- Pick the fields of the file header. -/
def parseHeader (bytes : Bytes) : Guarded FileHeader := do
  checkMagic bytes
  if bytes.length < FileHeader.size then throw .shortFileHeader
  else do
    let version ← item bytes 4
    if version ≠ formatVersion then throw (.unsupportedVersion version.toNat)
    else do
      let a ← item bytes 5
      let b ← item bytes 6
      let c ← item bytes 7
      let d ← item bytes 8
      return { version, flags := UInt32.ofNat (ofLittleEndian [a, b, c, d]) }

/-- Check both ends of the buffer and slice off the region between file header and end marker. -/
def openFrame (bytes : Bytes) : Guarded (FileHeader × Bytes) := do
  checkMagic bytes
  if bytes.getLast? ≠ some endMarker then throw .noEndMarker
  else do
    let stop ← minus bytes.length 1
    let framed ← slice bytes 0 stop
    let header ← parseHeader framed
    let region ← slice bytes FileHeader.size stop
    return (header, region)

theorem checkMagic_eq (bytes : Bytes) : checkMagic bytes = safely (SnapshotArchive.checkMagic bytes) := by
  unfold checkMagic SnapshotArchive.checkMagic
  by_cases hshort : bytes.length < magic.length
  · have hmagic : ¬magic <+: bytes := fun hprefix => Nat.not_le.mpr hshort hprefix.length_le
    rw [if_pos hshort, if_neg hmagic]
    by_cases hprefix : bytes <+: magic
    · rw [if_pos hprefix, if_pos hprefix, throw_eq]
    · rw [if_neg hprefix, if_neg hprefix, throw_eq]
  · have hlength := Nat.not_lt.mp hshort
    rw [if_neg hshort, slice_of_le (Nat.zero_le _) hlength, ok_bind, List.drop_zero]
    by_cases hmagic : magic <+: bytes
    · have hfront : bytes.take magic.length = magic := (List.prefix_iff_eq_take.mp hmagic).symm
      rw [if_pos hmagic, if_neg (fun hne => hne hfront), pure_eq]
    · have hfront : bytes.take magic.length ≠ magic :=
        fun heq => hmagic (List.prefix_iff_eq_take.mpr heq.symm)
      -- nothing that is long enough begins the magic without being it
      have hprefix : ¬bytes <+: magic := by
        intro hprefix
        have heq := hprefix.eq_of_length (Nat.le_antisymm hprefix.length_le hlength)
        exact hmagic (heq ▸ List.prefix_refl bytes)
      rw [if_neg hmagic, if_pos hfront, if_neg hprefix, throw_eq]

theorem parseHeader_eq (bytes : Bytes) : parseHeader bytes = safely (FileHeader.parse bytes) := by
  unfold parseHeader FileHeader.parse
  rw [checkMagic_eq]
  apply safely_bind
  intro _ _
  by_cases hshort : bytes.length < FileHeader.size
  · rw [if_pos hshort, takeExactly?_of_lt hshort, throw_eq]
  · have hlength : 9 ≤ bytes.length := Nat.not_lt.mp hshort
    rw [if_neg hshort]
    match bytes, hlength with
    | _ :: _ :: _ :: _ :: version :: a :: b :: c :: d :: rest, _ =>
        show (if version ≠ formatVersion then _ else _) = safely (if version ≠ formatVersion then _ else _)
        apply safely_check
        intro _
        rfl

/-- A file header is only found where there are enough bytes for it. -/
theorem size_le_of_parse {bytes : Bytes} {header : FileHeader} (h : FileHeader.parse bytes = .ok header) :
    FileHeader.size ≤ bytes.length := by
  obtain ⟨-, hbytes⟩ := FileHeader.parse_sound h
  rw [hbytes, List.length_append, FileHeader.length_print]
  exact Nat.le_add_right _ _

theorem openFrame_eq (bytes : Bytes) : openFrame bytes = safely (SnapshotArchive.openFrame bytes) := by
  unfold openFrame SnapshotArchive.openFrame
  rw [checkMagic_eq]
  apply safely_bind
  intro _ _
  apply safely_check
  intro hlast
  -- the end marker makes the buffer long enough to take it off
  obtain ⟨framed, rfl⟩ := List.getLast?_eq_some_iff.mp (Decidable.not_not.mp hlast)
  have hstop : (framed ++ [endMarker]).length - 1 = framed.length := by
    rw [List.length_append, List.length_singleton, Nat.add_sub_cancel]
  have hlength : framed.length ≤ (framed ++ [endMarker]).length := by
    rw [List.length_append]
    exact Nat.le_add_right _ _
  rw [minus_of_le (by rw [List.length_append]; exact Nat.le_add_left _ _), ok_bind, hstop,
    slice_of_le (Nat.zero_le _) hlength, ok_bind, List.drop_zero, List.take_left, List.dropLast_concat,
    parseHeader_eq]
  apply safely_bind
  intro header hheader
  rw [slice_of_le (size_le_of_parse hheader) hlength, ok_bind, List.take_left]
  rfl

/-! ## Blocks -/

/-- Pick the fields of a block header. -/
def parseBlockHeader (front : Bytes) : Guarded BlockHeader := do
  let id ← item front 0
  match Column.ofId? id with
  | none => throw (.unknownColumn id.toNat)
  | some column => do
      let i₀ ← item front 2
      let i₁ ← item front 3
      let i₂ ← item front 4
      let i₃ ← item front 5
      let itemCount := ofLittleEndian [i₀, i₁, i₂, i₃]
      if maxBlockItems < itemCount then throw (.tooManyBlockItems itemCount)
      else do
        let codecId ← item front 1
        let p₀ ← item front 6
        let p₁ ← item front 7
        let p₂ ← item front 8
        let p₃ ← item front 9
        let flags ← item front 10
        return {
          column, codecId, flags
          itemCount := UInt32.ofNat itemCount
          payloadSize := UInt32.ofNat (ofLittleEndian [p₀, p₁, p₂, p₃]) }

/-- The block at a position of the region. -/
def parseBlock (region : Bytes) (pos : Nat) : Guarded Block := do
  let rest ← slice region pos region.length
  if rest.length < BlockHeader.size then throw (.shortBlockHeader (FileHeader.size + pos))
  else do
    let front ← slice rest 0 BlockHeader.size
    let header ← parseBlockHeader front
    let stop ← fits (BlockHeader.size + header.payloadSize.toNat)
    if rest.length < stop then do
      let left ← minus rest.length BlockHeader.size
      throw (.shortPayload (FileHeader.size + pos) header.payloadSize.toNat left)
    else do
      let payload ← slice rest BlockHeader.size stop
      return { header, payload }

/-- The blocks from a position of the region on. Positions do not pass the end of the region, and so offsets do not
    pass the end of the buffer. -/
def parseBlocks (region : Bytes) (pos : Nat) : Guarded (List PlacedBlock) :=
  if pos < region.length then do
    let block ← parseBlock region pos
    let size := BlockHeader.size + block.header.payloadSize.toNat
    let offset ← within (FileHeader.size + region.length) (FileHeader.size + pos)
    let _ ← within region.length (pos + size)
    let blocks ← parseBlocks region (pos + size)
    return { block with offset } :: blocks
  else pure []
termination_by region.length - pos
decreasing_by
  simp only [BlockHeader.size]
  omega

theorem parseBlockHeader_eq {front : Bytes} (h : front.length = BlockHeader.size) :
    parseBlockHeader front = safely (BlockHeader.parse front) := by
  match front, h with
  | [id, codecId, i₀, i₁, i₂, i₃, p₀, p₁, p₂, p₃, flags], _ =>
      show (match Column.ofId? id with | none => _ | some column => _)
        = safely (match Column.ofId? id with | none => _ | some column => _)
      cases Column.ofId? id with
      | none => rfl
      | some column =>
          show (if maxBlockItems < ofLittleEndian [i₀, i₁, i₂, i₃] then _ else _)
            = safely (if maxBlockItems < ofLittleEndian [i₀, i₁, i₂, i₃] then _ else _)
          apply safely_check
          intro _
          rfl

theorem parseBlock_eq {region : Bytes} {pos : Nat} (hpos : pos ≤ region.length) :
    parseBlock region pos
      = safely ((SnapshotArchive.parseBlock (FileHeader.size + pos) (region.drop pos)).map (·.1)) := by
  unfold parseBlock SnapshotArchive.parseBlock
  rw [slice_of_le hpos (Nat.le_refl _), ok_bind, List.take_length]
  generalize region.drop pos = rest
  rw [takeExactly?_eq]
  by_cases hshort : rest.length < BlockHeader.size
  · rw [if_pos hshort, if_neg (Nat.not_le.mpr hshort), throw_eq]
    rfl
  · have hheader := Nat.not_lt.mp hshort
    rw [if_neg hshort, if_pos hheader, slice_of_le (Nat.zero_le _) hheader, ok_bind, List.drop_zero,
      parseBlockHeader_eq (List.length_take_of_le hheader)]
    show _ = safely (Except.map _ (BlockHeader.parse (rest.take BlockHeader.size) >>= fun header => _))
    cases hparse : BlockHeader.parse (rest.take BlockHeader.size) with
    | error fault => rfl
    | ok header =>
        have hsize := header.payloadSize.toNat_lt
        rw [ok_bind, fits_of_lt (by simp only [BlockHeader.size, UInt64.size]; omega), ok_bind]
        have hpure : (Except.ok header : Except Fault BlockHeader) = pure header := rfl
        rw [hpure, pure_bind, takeExactly?_eq, List.length_drop]
        by_cases hlong : rest.length < BlockHeader.size + header.payloadSize.toNat
        · rw [if_pos hlong, minus_of_le hheader, ok_bind, if_neg (by omega), throw_eq]
          rfl
        · rw [if_neg hlong, slice_of_le (Nat.le_add_right _ _) (Nat.not_lt.mp hlong), ok_bind, if_pos (by omega),
            List.drop_take, Nat.add_sub_cancel_left]
          rfl

theorem parseBlocks_eq {region : Bytes} {pos : Nat} (hpos : pos ≤ region.length) :
    parseBlocks region pos
      = safely (SnapshotArchive.parseBlocks (FileHeader.size + pos) (region.drop pos)) := by
  fun_induction parseBlocks region pos with
  | case1 pos hlt ih =>
      have hne : region.drop pos ≠ [] := by
        intro hnil
        have := List.drop_eq_nil_iff.mp hnil
        omega
      rw [parseBlock_eq hpos]
      cases hblock : SnapshotArchive.parseBlock (FileHeader.size + pos) (region.drop pos) with
      | error fault =>
          rw [parseBlocks_of_error hne hblock]
          rfl
      | ok parsed =>
          obtain ⟨block, rest⟩ := parsed
          -- what was read off the front is the printed block, so the position moves by its size
          obtain ⟨hregion, hwell⟩ := parseBlock_sound hblock
          have hsize : BlockHeader.size + block.header.payloadSize.toNat = block.size := by
            rw [hwell.payloadSize_eq]
            rfl
          have hlength : pos + block.size + rest.length = region.length := by
            have hdrop := congrArg List.length hregion
            rw [List.length_drop, List.length_append, Block.length_print] at hdrop
            omega
          have hrest : region.drop (pos + block.size) = rest := by
            rw [← List.drop_drop, hregion, ← Block.length_print, List.drop_left]
          have hnext := ih block
          simp only [hsize] at hnext
          rw [parseBlocks_of_parseBlock hblock]
          show (safely (.ok block) >>= fun block => _) = _
          rw [ok_bind]
          simp only [hsize]
          rw [within_of_le (by omega), ok_bind, within_of_le (by omega), ok_bind, hnext (by omega), hrest,
            Nat.add_assoc]
          apply safely_map
          intro blocks _
          rfl
  | case2 pos hge =>
      have hnil : region.drop pos = [] := List.drop_eq_nil_iff.mpr (Nat.not_lt.mp hge)
      rw [hnil, parseBlocks_nil]
      rfl

/-! ## Archives -/

/-- The file header of an archive. -/
def parseFileHeader (bytes : Bytes) : Guarded FileHeader := do
  let (header, _) ← openFrame bytes
  return header

/-- The framing of an archive. -/
def parseArchive (bytes : Bytes) : Guarded (FileHeader × List PlacedBlock) := do
  let (header, region) ← openFrame bytes
  let blocks ← parseBlocks region 0
  return (header, blocks)

/-- The blocks of an archive. -/
def parseArchiveBlocks (bytes : Bytes) : Guarded (List PlacedBlock) := do
  let (_, blocks) ← parseArchive bytes
  return blocks

/-- **Reading a file header never leaves the buffer.** -/
theorem parseFileHeader_eq (bytes : Bytes) :
    parseFileHeader bytes = safely (SnapshotArchive.parseFileHeader bytes) := by
  unfold parseFileHeader SnapshotArchive.parseFileHeader
  rw [openFrame_eq]
  apply safely_map
  intro _ _
  rfl

/-- **Reading the framing never leaves the buffer.** -/
theorem parseArchive_eq (bytes : Bytes) : parseArchive bytes = safely (SnapshotArchive.parseArchive bytes) := by
  unfold parseArchive SnapshotArchive.parseArchive
  rw [openFrame_eq]
  apply safely_bind
  rintro ⟨header, region⟩ _
  have hblocks : parseBlocks region 0 = safely (SnapshotArchive.parseBlocks (FileHeader.size + 0) (region.drop 0)) :=
    parseBlocks_eq (Nat.zero_le _)
  rw [List.drop_zero, Nat.add_zero] at hblocks
  simp only
  rw [hblocks]
  apply safely_bind
  intro blocks _
  rfl

theorem parseArchiveBlocks_eq (bytes : Bytes) :
    parseArchiveBlocks bytes = safely (SnapshotArchive.parseArchiveBlocks bytes) := by
  unfold parseArchiveBlocks SnapshotArchive.parseArchiveBlocks
  rw [parseArchive_eq]
  apply safely_map
  intro _ _
  rfl

end SnapshotArchive.InPlace

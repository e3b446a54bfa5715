import SnapshotArchive.Frame.Archive
import SnapshotArchive.Proofs.Words

/-!
# `Proofs.Framing` — the framing of an archive has one written form

Parsing accepts exactly the printed archives whose blocks are well formed, and returns the blocks that
were printed. Each level has one lemma for either direction: what was printed is parsed back
(`_print`), and what was parsed prints as the bytes that were consumed (`_sound`).

## Contents
- **Columns.** `Column.ofId?_eq_some_iff`; no column has the end marker as its id.
- **Headers and blocks.** `Block.WellFormed`, `parseBlock_print`, `parseBlock_sound`.
- **Block lists.** `parseBlocks_print`, `parseBlocks_sound`.
- **Archives.** `parseArchive_print`, `parseArchive_sound` and the two together,
  `parseArchiveBlocks_grammar`.
-/

namespace SnapshotArchive

/-! ## Columns -/

namespace Column

theorem ofId?_id (column : Column) : ofId? column.id = some column := by
  cases column <;> rfl

theorem ofId?_eq_some_iff {byte : UInt8} {column : Column} :
    ofId? byte = some column ↔ column.id = byte := by
  constructor
  · intro h
    have hfound : (column.id == byte) = true :=
      List.find?_some (p := fun column : Column => column.id == byte) h
    exact beq_iff_eq.mp hfound
  · intro h
    rw [← h, ofId?_id]

/-- **The end marker is no column id**, so no block header starts with it. -/
theorem id_ne_endMarker (column : Column) : column.id ≠ endMarker := by
  cases column <;> decide

end Column

/-! ## Block headers -/

namespace BlockHeader

theorem length_print (header : BlockHeader) : header.print.length = size := by
  simp [print, length_littleEndian, size]

/-- The fields of eleven bytes. -/
theorem bytes_eq {bytes : Bytes} (h : bytes.length = size) :
    bytes = bytes.getD 0 0 :: bytes.getD 1 0 ::
      ((bytes.drop 2).take 4 ++ (bytes.drop 6).take 4 ++ [bytes.getD 10 0]) := by
  match bytes, h with
  | [_, _, _, _, _, _, _, _, _, _, _], _ => rfl

theorem word_toNat {bytes : Bytes} (h : bytes.length = 4) :
    (UInt32.ofNat (ofLittleEndian bytes)).toNat = ofLittleEndian bytes := by
  have hdigits := ofLittleEndian_lt bytes
  have hsize : 256 ^ 4 = UInt32.size := by decide
  rw [h, hsize] at hdigits
  exact UInt32.toNat_ofNat_of_lt hdigits

theorem littleEndian_word {bytes : Bytes} (h : bytes.length = 4) :
    littleEndian 4 (UInt32.ofNat (ofLittleEndian bytes)).toNat = bytes := by
  have hinverse := littleEndian_ofLittleEndian bytes
  rw [h] at hinverse
  rw [word_toNat h, hinverse]

theorem ofLittleEndian_word (word : UInt32) : ofLittleEndian (littleEndian 4 word.toNat) = word.toNat := by
  have hsize : 256 ^ 4 = UInt32.size := by decide
  rw [ofLittleEndian_littleEndian, hsize, Nat.mod_eq_of_lt word.toNat_lt]

/-- A printed header is parsed back if it declares an admissible number of items. -/
theorem parse_print {header : BlockHeader} (h : header.itemCount.toNat ≤ maxBlockItems) :
    parse header.print = .ok header := by
  have hcolumn : header.print.getD 0 0 = header.column.id := rfl
  have hitems : ofLittleEndian ((header.print.drop 2).take 4) = header.itemCount.toNat := by
    rw [← ofLittleEndian_word header.itemCount]
    rfl
  have hsize : ofLittleEndian ((header.print.drop 6).take 4) = header.payloadSize.toNat := by
    rw [← ofLittleEndian_word header.payloadSize]
    rfl
  unfold parse
  simp only [hcolumn, Column.ofId?_id, hitems, hsize]
  rw [if_neg (Nat.not_lt.mpr h), UInt32.ofNat_toNat, UInt32.ofNat_toNat]
  rfl

/-- A parsed header prints as the bytes it was parsed from. -/
theorem parse_sound {bytes : Bytes} {header : BlockHeader} (hlength : bytes.length = size)
    (h : parse bytes = .ok header) :
    bytes = header.print ∧ header.itemCount.toNat ≤ maxBlockItems := by
  have hitems : ((bytes.drop 2).take 4).length = 4 := by simp [hlength, size]
  have hsize : ((bytes.drop 6).take 4).length = 4 := by simp [hlength, size]
  unfold parse at h
  split at h
  · exact nomatch h
  · rename_i column hcolumn
    simp only at h
    split at h
    · exact nomatch h
    · rename_i hle
      rw [← Except.ok.inj h]
      refine ⟨?_, ?_⟩
      · rw [print, Column.ofId?_eq_some_iff.mp hcolumn, littleEndian_word hitems,
          littleEndian_word hsize]
        exact bytes_eq hlength
      · rw [word_toNat hitems]
        exact Nat.not_lt.mp hle

end BlockHeader

/-! ## Blocks -/

/-- A block that a reader takes: its header declares no more items than a block may carry and states the
    size of the payload. Codec and flags are arbitrary bytes. -/
structure Block.WellFormed (block : Block) : Prop where
  itemCount_le : block.header.itemCount.toNat ≤ maxBlockItems
  payloadSize_eq : block.header.payloadSize.toNat = block.payload.length

theorem Block.length_print (block : Block) : block.print.length = block.size := by
  rw [Block.print, List.length_append, BlockHeader.length_print, Block.size]

/-- **A printed block is parsed back** off the front of any region. -/
theorem parseBlock_print {block : Block} (h : block.WellFormed) (offset : Nat) (rest : Bytes) :
    parseBlock offset (block.print ++ rest) = .ok (block, rest) := by
  have hheader := takeExactly?_append block.header.print (block.payload ++ rest)
  have hpayload := takeExactly?_append block.payload rest
  rw [BlockHeader.length_print] at hheader
  rw [← h.payloadSize_eq] at hpayload
  rw [parseBlock, Block.print, List.append_assoc, hheader]
  simp only [BlockHeader.parse_print h.itemCount_le, bind, Except.bind, hpayload]

/-- **A parsed block prints as what was consumed**, and is well formed. -/
theorem parseBlock_sound {offset : Nat} {region rest : Bytes} {block : Block}
    (h : parseBlock offset region = .ok (block, rest)) :
    region = block.print ++ rest ∧ block.WellFormed := by
  unfold parseBlock at h
  split at h
  · exact nomatch h
  · rename_i front tail hfront
    obtain ⟨hregion, hsize⟩ := takeExactly?_eq_some hfront
    obtain ⟨header, hheader, h⟩ := bind_eq_ok.mp h
    obtain ⟨hprint, hitems⟩ := BlockHeader.parse_sound hsize hheader
    split at h
    · exact nomatch h
    · rename_i payload tail' hpayload
      obtain ⟨htail, hlength⟩ := takeExactly?_eq_some hpayload
      simp only [Except.ok.injEq, Prod.mk.injEq] at h
      obtain ⟨rfl, rfl⟩ := h
      refine ⟨?_, hitems, hlength.symm⟩
      rw [Block.print, hregion, htail, hprint, List.append_assoc]

/-! ## Block lists -/

theorem parseBlocks_nil (offset : Nat) : parseBlocks offset [] = .ok [] := by
  rw [parseBlocks, if_pos List.isEmpty_nil]

/-- A block at the front of a region is the first block of the region. -/
theorem parseBlocks_of_parseBlock {offset : Nat} {region rest : Bytes} {block : Block}
    (h : parseBlock offset region = .ok (block, rest)) :
    parseBlocks offset region
      = (parseBlocks (offset + block.size) rest).map ({ block with offset } :: ·) := by
  have hne : ¬region.isEmpty = true := by
    intro hempty
    rw [List.isEmpty_iff.mp hempty] at h
    exact nomatch h
  rw [parseBlocks, if_neg hne]
  split
  · rename_i fault herror
    rw [h] at herror
    cases herror
  · rename_i other rest' hok
    rw [h] at hok
    simp only [Except.ok.injEq, Prod.mk.injEq] at hok
    obtain ⟨rfl, rfl⟩ := hok
    rfl

/-- A region that does not begin with a block has none. -/
theorem parseBlocks_of_error {offset : Nat} {region : Bytes} {fault : Fault} (hne : region ≠ [])
    (h : parseBlock offset region = .error fault) : parseBlocks offset region = .error fault := by
  have hne' : ¬region.isEmpty = true := mt List.isEmpty_iff.mp hne
  rw [parseBlocks, if_neg hne']
  split
  · rename_i other herror
    rw [h] at herror
    rw [Except.error.inj herror]
  · rename_i block rest hok
    rw [h] at hok
    cases hok

/-- **Printed blocks are parsed back**, each with the offset at which it was put. -/
theorem parseBlocks_print {blocks : List Block} (h : ∀ block ∈ blocks, block.WellFormed)
    (offset : Nat) :
    parseBlocks offset (blocks.flatMap Block.print) = .ok (place offset blocks) := by
  induction blocks generalizing offset with
  | nil => exact parseBlocks_nil offset
  | cons block blocks ih =>
      have hblock := parseBlock_print (h block List.mem_cons_self) offset (blocks.flatMap Block.print)
      rw [List.flatMap_cons, parseBlocks_of_parseBlock hblock,
        ih (fun other hother => h other (List.mem_cons_of_mem _ hother))]
      rfl

/-- **Parsed blocks print as the region** that they were parsed from, are well formed and stand where the
    blocks before them end. -/
theorem parseBlocks_sound {offset : Nat} {region : Bytes} {placed : List PlacedBlock}
    (h : parseBlocks offset region = .ok placed) :
    ∃ blocks : List Block, placed = place offset blocks ∧ region = blocks.flatMap Block.print ∧
      ∀ block ∈ blocks, block.WellFormed := by
  fun_induction parseBlocks offset region generalizing placed with
  | case1 offset region hempty =>
      refine ⟨[], (Except.ok.inj h).symm, List.isEmpty_iff.mp hempty, ?_⟩
      intro block hmem
      exact absurd hmem List.not_mem_nil
  | case2 offset region hne fault herror => cases h
  | case3 offset region hne block rest hok hlt ih =>
      obtain ⟨others, hothers, rfl⟩ := map_eq_ok.mp h
      obtain ⟨hregion, hblock⟩ := parseBlock_sound hok
      obtain ⟨blocks, hplaced, hrest, hwell⟩ := ih hothers
      refine ⟨block :: blocks, ?_, ?_, ?_⟩
      · rw [place, hplaced]
      · rw [List.flatMap_cons, ← hrest, hregion]
      · intro other hother
        rcases List.mem_cons.mp hother with rfl | hmem
        · exact hblock
        · exact hwell other hmem

theorem map_toBlock_place (offset : Nat) (blocks : List Block) :
    (place offset blocks).map (·.toBlock) = blocks := by
  induction blocks generalizing offset with
  | nil => rfl
  | cons block blocks ih => rw [place, List.map_cons, ih]

theorem map_header_place (offset : Nat) (blocks : List Block) :
    (place offset blocks).map (·.header) = blocks.map (·.header) := by
  have hblocks := congrArg (List.map Block.header) (map_toBlock_place offset blocks)
  rwa [List.map_map] at hblocks

theorem length_place (offset : Nat) (blocks : List Block) : (place offset blocks).length = blocks.length := by
  rw [← List.length_map (·.toBlock), map_toBlock_place]

/-- The size of blocks that follow each other. -/
def totalSize : List Block → Nat
  | [] => 0
  | block :: blocks => block.size + totalSize blocks

theorem place_append (offset : Nat) (blocks others : List Block) :
    place offset (blocks ++ others) = place offset blocks ++ place (offset + totalSize blocks) others := by
  induction blocks generalizing offset with
  | nil => rfl
  | cons block blocks ih => rw [List.cons_append, place, ih, place, totalSize, Nat.add_assoc, List.cons_append]

/-- **The offset of a block** is that of the first block, plus the sizes of the blocks in between. -/
theorem offset_getElem_place {offset i : Nat} {blocks : List Block}
    (h : i < (place offset blocks).length) :
    (place offset blocks)[i].offset = offset + totalSize (blocks.take i) := by
  induction blocks generalizing offset i with
  | nil => exact absurd h (Nat.not_lt_zero i)
  | cons block blocks ih =>
      cases i with
      | zero => rfl
      | succ i =>
          have hi : i < (place (offset + block.size) blocks).length := Nat.lt_of_succ_lt_succ h
          have hnext := ih hi
          rw [List.take_succ_cons, totalSize, ← Nat.add_assoc]
          exact hnext

/-! ## Archives -/

namespace FileHeader

theorem length_print (header : FileHeader) : header.print.length = size := by
  simp [print, magic, length_littleEndian, size]

end FileHeader

theorem checkMagic_eq_ok {bytes : Bytes} (h : magic <+: bytes) : checkMagic bytes = .ok () := by
  rw [checkMagic, if_pos h]

theorem magic_prefix_of_checkMagic {bytes : Bytes} (h : checkMagic bytes = .ok ()) :
    magic <+: bytes := by
  by_cases hmagic : magic <+: bytes
  · exact hmagic
  · rw [checkMagic, if_neg hmagic] at h
    split at h <;> exact nomatch h

theorem magic_prefix_print (header : FileHeader) (rest : Bytes) : magic <+: header.print ++ rest := by
  rw [FileHeader.print, List.append_assoc]
  exact List.prefix_append _ _

/-- A header of the current version is parsed back off the front. -/
theorem FileHeader.parse_print (flags : UInt32) (rest : Bytes) :
    FileHeader.parse (FileHeader.print { flags } ++ rest) = .ok { flags } := by
  have hcut := takeExactly?_append (FileHeader.print { flags }) rest
  rw [FileHeader.length_print] at hcut
  have hflags : ofLittleEndian ((FileHeader.print { flags }).drop 5) = flags.toNat :=
    BlockHeader.ofLittleEndian_word flags
  have hversion : (FileHeader.print { flags }).getD 4 0 = formatVersion := rfl
  refine bind_eq_ok.mpr ⟨(), checkMagic_eq_ok (magic_prefix_print _ rest), ?_⟩
  rw [hcut]
  simp only [hversion, hflags, UInt32.ofNat_toNat]
  rw [if_neg (fun h => h rfl)]

/-- A parsed header is of the current version and prints as the first bytes. -/
theorem FileHeader.parse_sound {bytes : Bytes} {header : FileHeader}
    (h : FileHeader.parse bytes = .ok header) :
    header = { flags := header.flags } ∧ bytes = header.print ++ bytes.drop size := by
  obtain ⟨⟨⟩, hmagic, h⟩ := bind_eq_ok.mp h
  split at h
  · exact nomatch h
  · rename_i front rest hcut
    obtain ⟨hbytes, hlength⟩ := takeExactly?_eq_some hcut
    simp only at h
    split at h
    · exact nomatch h
    · rename_i hversion
      have hfront : magic <+: front := by
        have hprefix : front <+: bytes := hbytes ▸ List.prefix_append front rest
        exact List.prefix_of_prefix_length_le (magic_prefix_of_checkMagic hmagic) hprefix
          (by rw [hlength]; decide)
      obtain ⟨tail, rfl⟩ := hfront
      cases tail with
      | nil => exact nomatch hlength
      | cons version word =>
          have hword : word.length = 4 := by
            have hmagic : magic.length = 4 := rfl
            rw [List.length_append, List.length_cons, hmagic] at hlength
            exact Nat.succ.inj (Nat.add_left_cancel hlength)
          have hversion' : version = formatVersion := Decidable.not_not.mp hversion
          have hdrop : bytes.drop size = rest := by
            rw [hbytes, ← hlength, List.drop_left]
          have hheader : header = { version, flags := UInt32.ofNat (ofLittleEndian word) } :=
            (Except.ok.inj h).symm
          rw [hdrop, hheader, hversion', FileHeader.print, BlockHeader.littleEndian_word hword, hbytes,
            hversion']
          exact ⟨rfl, rfl⟩

/-- **The frame of a printed archive is opened**, whatever stands between header and end marker. -/
theorem openFrame_print (flags : UInt32) (region : Bytes) :
    openFrame (FileHeader.print { flags } ++ region ++ [endMarker]) = .ok ({ flags }, region) := by
  have hdrop : (FileHeader.print { flags } ++ region).drop FileHeader.size = region := by
    rw [← FileHeader.length_print { flags }, List.drop_left]
  have hmagic : magic <+: FileHeader.print { flags } ++ region ++ [endMarker] := by
    rw [List.append_assoc]
    exact magic_prefix_print _ _
  refine bind_eq_ok.mpr ⟨(), checkMagic_eq_ok hmagic, ?_⟩
  rw [if_neg (fun h => h List.getLast?_concat), List.dropLast_concat]
  refine bind_eq_ok.mpr ⟨{ flags }, FileHeader.parse_print flags region, ?_⟩
  rw [hdrop]
  rfl

/-- **An opened frame closes again** into the bytes that it was opened from. -/
theorem openFrame_sound {bytes region : Bytes} {header : FileHeader}
    (h : openFrame bytes = .ok (header, region)) :
    header = { flags := header.flags } ∧ bytes = header.print ++ region ++ [endMarker] := by
  obtain ⟨⟨⟩, -, h⟩ := bind_eq_ok.mp h
  by_cases hlast : bytes.getLast? = some endMarker
  · rw [if_neg (fun hne => hne hlast)] at h
    obtain ⟨framed, rfl⟩ := List.getLast?_eq_some_iff.mp hlast
    rw [List.dropLast_concat] at h
    obtain ⟨parsed, hparse, h⟩ := bind_eq_ok.mp h
    obtain ⟨rfl, hregion⟩ := Prod.mk.inj (Except.ok.inj h)
    obtain ⟨hversion, hframed⟩ := FileHeader.parse_sound hparse
    refine ⟨hversion, ?_⟩
    rw [← hregion, ← hframed]
  · rw [if_pos hlast] at h
    exact nomatch h

/-- **A printed archive is parsed back.** -/
theorem parseArchive_print (archive : Archive) (h : ∀ block ∈ archive.blocks, block.WellFormed) :
    parseArchive archive.print
      = .ok ({ flags := archive.flags }, place FileHeader.size archive.blocks) := by
  refine bind_eq_ok.mpr ⟨_, openFrame_print archive.flags (archive.blocks.flatMap Block.print), ?_⟩
  exact bind_eq_ok.mpr ⟨_, parseBlocks_print h FileHeader.size, rfl⟩

/-- **A parsed archive prints as the bytes** that it was parsed from. -/
theorem parseArchive_sound {bytes : Bytes} {header : FileHeader} {placed : List PlacedBlock}
    (h : parseArchive bytes = .ok (header, placed)) :
    ∃ archive : Archive, bytes = archive.print ∧ header = { flags := archive.flags } ∧
      placed = place FileHeader.size archive.blocks ∧ ∀ block ∈ archive.blocks, block.WellFormed := by
  obtain ⟨⟨opened, region⟩, hopen, h⟩ := bind_eq_ok.mp h
  obtain ⟨parsed, hparse, h⟩ := bind_eq_ok.mp h
  obtain ⟨rfl, rfl⟩ := Prod.mk.inj (Except.ok.inj h)
  obtain ⟨hheader, hbytes⟩ := openFrame_sound hopen
  obtain ⟨blocks, hplaced, hregion, hwell⟩ := parseBlocks_sound hparse
  refine ⟨{ flags := opened.flags, blocks }, ?_, hheader, hplaced, hwell⟩
  rw [hbytes, hregion, Archive.print, ← hheader]

theorem parseArchiveBlocks_eq_ok_iff {bytes : Bytes} {placed : List PlacedBlock} :
    parseArchiveBlocks bytes = .ok placed ↔ ∃ header, parseArchive bytes = .ok (header, placed) := by
  constructor
  · intro h
    obtain ⟨⟨header, others⟩, hparse, rfl⟩ := map_eq_ok.mp h
    exact ⟨header, hparse⟩
  · rintro ⟨header, hparse⟩
    exact map_eq_ok.mpr ⟨_, hparse, rfl⟩

/-- What is printed determines what was printed. -/
theorem Archive.print_injective {archive other : Archive}
    (h : ∀ block ∈ archive.blocks, block.WellFormed) (h' : ∀ block ∈ other.blocks, block.WellFormed)
    (heq : archive.print = other.print) : archive = other := by
  have hparse := parseArchive_print archive h
  rw [heq, parseArchive_print other h'] at hparse
  obtain ⟨hheader, hplaced⟩ := Prod.mk.inj (Except.ok.inj hparse)
  have hflags : archive.flags = other.flags := (congrArg FileHeader.flags hheader).symm
  have hblocks : archive.blocks = other.blocks := by
    rw [← map_toBlock_place FileHeader.size archive.blocks, ← hplaced, map_toBlock_place]
  cases archive
  cases other
  simp only at hflags hblocks
  rw [hflags, hblocks]

/-- **The blocks of an archive are read exactly when the bytes are a printed archive.** For all bytes:
    the blocks read are `blocks` if and only if the bytes are the file header with some flags, the blocks
    one after another and the end marker, and every block is well formed; every block is placed behind
    the file header and the blocks before it; and no other archive prints as the same bytes. -/
theorem parseArchiveBlocks_grammar (bytes : Bytes) :
    (∀ blocks : List Block,
      (∃ placed, parseArchiveBlocks bytes = .ok placed ∧ placed.map (·.toBlock) = blocks) ↔
        ∃ flags : UInt32, bytes = Archive.print { flags, blocks } ∧
          ∀ block ∈ blocks, block.WellFormed) ∧
    (∀ placed, parseArchiveBlocks bytes = .ok placed → ∀ (i : Nat) (h : i < placed.length),
      placed[i].offset = FileHeader.size + totalSize ((placed.take i).map (·.toBlock))) ∧
    (∀ archive other : Archive, (∀ block ∈ archive.blocks, block.WellFormed) →
      (∀ block ∈ other.blocks, block.WellFormed) → archive.print = bytes → other.print = bytes →
      archive = other) := by
  refine ⟨?_, ?_, ?_⟩
  · intro blocks
    constructor
    · rintro ⟨placed, hparse, rfl⟩
      obtain ⟨header, hparse⟩ := parseArchiveBlocks_eq_ok_iff.mp hparse
      obtain ⟨archive, hbytes, -, rfl, hwell⟩ := parseArchive_sound hparse
      rw [map_toBlock_place]
      exact ⟨archive.flags, hbytes, hwell⟩
    · rintro ⟨flags, rfl, hwell⟩
      refine ⟨place FileHeader.size blocks, ?_, map_toBlock_place _ _⟩
      exact parseArchiveBlocks_eq_ok_iff.mpr ⟨_, parseArchive_print { flags, blocks } hwell⟩
  · intro placed hparse i hi
    obtain ⟨header, hparse⟩ := parseArchiveBlocks_eq_ok_iff.mp hparse
    obtain ⟨archive, -, -, rfl, -⟩ := parseArchive_sound hparse
    rw [offset_getElem_place hi, List.map_take, map_toBlock_place]
  · intro archive other hwell hwell' hprint hprint'
    exact Archive.print_injective hwell hwell' (hprint.trans hprint'.symm)

end SnapshotArchive

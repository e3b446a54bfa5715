import SnapshotArchive.Proofs.Differences
import SnapshotArchive.Proofs.Framing
import SnapshotArchive.Reading
import SnapshotArchive.Summary

/-!
# `Proofs.Yield` — how much a reader makes of its bytes

A few bytes can stand for many values: a run of two bytes, a reference to a dictionary, a bit. What bounds the
values is the room in a block. The functions here list all values that a payload gives, those included that it
gives before a fault or in a block that is then refused: there are never more than a block may carry, and so their
number over a whole archive is bounded by its size.

## Contents
- **Payloads.** `VarintList.made`, `RunLength.made`, `Dictionary.made`, `BitPack.made`.
- **Blocks.** `Context.made`, `Context.length_made_le`; `Context.produced`, `Context.produced_le`.
- **Archives.** `length_parsed_le`, `produced`, `produced_le`, `items_verify_le`.
-/

namespace SnapshotArchive

/-! ## Payloads -/

namespace VarintList

/-- The values that a payload gives until it ends or a fault occurs. -/
def made : Nat → Bytes → List Int64
  | _, [] => []
  | 0, _ :: _ => []
  | room + 1, byte :: bytes =>
      match Varint.read (byte :: bytes) with
      | (.error _, _) => []
      | (.ok word, rest) => unzigzag word :: made room rest

theorem length_made_le (room : Nat) (bytes : Bytes) : (made room bytes).length ≤ room := by
  induction room generalizing bytes with
  | zero => cases bytes <;> exact Nat.le_refl 0
  | succ room ih =>
      cases bytes with
      | nil => exact Nat.zero_le _
      | cons byte bytes =>
          unfold made
          split
          · exact Nat.zero_le _
          · exact Nat.succ_le_succ (ih _)

/-- A payload that is read gives what is read. -/
theorem made_of_readUpTo {room : Nat} {bytes : Bytes} {values : List Int64}
    (h : readUpTo room bytes = .ok values) : made room bytes = values := by
  induction room generalizing bytes values with
  | zero =>
      cases bytes with
      | nil => exact Except.ok.inj h
      | cons byte bytes => exact nomatch h
  | succ room ih =>
      cases bytes with
      | nil => exact Except.ok.inj h
      | cons byte bytes =>
          unfold readUpTo at h
          unfold made
          cases hread : Varint.read (byte :: bytes) with
          | mk answer rest =>
              rw [hread] at h
              cases answer with
              | error fault => exact nomatch h
              | ok word =>
                  obtain ⟨others, hothers, rfl⟩ := map_eq_ok.mp h
                  simp only
                  rw [ih hothers]

end VarintList

namespace RunLength

/-- The values that a payload gives until it ends or a fault occurs. -/
def made (room : Nat) (bytes : Bytes) : List Int64 :=
  match bytes with
  | [] => []
  | byte :: bytes =>
      match Varint.read (byte :: bytes) with
      | (.error _, _) => []
      | (.ok run, rest) =>
          if run.toNat = 0 ∨ maxRun < run.toNat then []
          else
            match Varint.read rest with
            | (.error _, _) => []
            | (.ok word, rest) =>
                if room < run.toNat then []
                else List.replicate run.toNat (unzigzag word) ++ made (room - run.toNat) rest
termination_by room

theorem length_made_le (room : Nat) (bytes : Bytes) : (made room bytes).length ≤ room := by
  fun_induction made room bytes with
  | case6 room byte bytes run rest _ _ word tail _ hroom ih =>
      -- a run takes its length out of the room, and has been judged to fit
      rw [List.length_append, List.length_replicate]
      omega
  | _ => exact Nat.zero_le _

theorem made_of_readUpTo {room : Nat} {bytes : Bytes} {values : List Int64}
    (h : readUpTo room bytes = .ok values) : made room bytes = values := by
  fun_induction readUpTo room bytes generalizing values with
  | case1 room =>
      rw [made]
      exact Except.ok.inj h
  | case7 room byte bytes run rest hrun count hempty hlong word tail hword hroom =>
      rename_i ih
      obtain ⟨others, hothers, rfl⟩ := map_eq_ok.mp h
      rw [made, hrun]
      simp only
      rw [if_neg (not_or.mpr ⟨hempty, hlong⟩), hword]
      simp only
      rw [if_neg hroom, ih hothers]
  | _ => exact nomatch h

end RunLength

namespace Dictionary

/-- The values that a payload gives until it ends or a fault occurs. -/
def made : Nat → Bytes → Dictionary → List Int64
  | _, [], _ => []
  | 0, _ :: _, _ => []
  | room + 1, byte :: bytes, dictionary =>
      match Varint.read (byte :: bytes) with
      | (.error _, _) => []
      | (.ok word, rest) =>
          if word &&& 1 = 1 then
            match dictionary.value? (word >>> 1).toNat with
            | none => []
            | some value => value :: made room rest dictionary
          else
            let value := unzigzag (word >>> 1)
            value :: made room rest (dictionary.insert value)

theorem length_made_le (room : Nat) (bytes : Bytes) (dictionary : Dictionary) :
    (made room bytes dictionary).length ≤ room := by
  induction room generalizing bytes dictionary with
  | zero => cases bytes <;> exact Nat.le_refl 0
  | succ room ih =>
      cases bytes with
      | nil => exact Nat.zero_le _
      | cons byte bytes =>
          unfold made
          split
          · exact Nat.zero_le _
          · split
            · split
              · exact Nat.zero_le _
              · exact Nat.succ_le_succ (ih _ _)
            · exact Nat.succ_le_succ (ih _ _)

theorem made_of_readUpTo {room : Nat} {bytes : Bytes} {dictionary : Dictionary} {values : List Int64}
    (h : (readUpTo room bytes dictionary).1 = .ok values) : made room bytes dictionary = values := by
  induction room generalizing bytes dictionary values with
  | zero =>
      cases bytes with
      | nil => exact Except.ok.inj h
      | cons byte bytes => exact nomatch h
  | succ room ih =>
      cases bytes with
      | nil => exact Except.ok.inj h
      | cons byte bytes =>
          unfold readUpTo at h
          unfold made
          cases hread : Varint.read (byte :: bytes) with
          | mk answer rest =>
              rw [hread] at h
              cases answer with
              | error fault => exact nomatch h
              | ok word =>
                  simp only at h ⊢
                  by_cases hreference : word &&& 1 = 1
                  · rw [if_pos hreference] at h ⊢
                    cases hvalue : dictionary.value? (word >>> 1).toNat with
                    | none =>
                        rw [hvalue] at h
                        exact nomatch h
                    | some value =>
                        rw [hvalue] at h
                        obtain ⟨others, hothers, rfl⟩ := map_eq_ok.mp h
                        simp only
                        rw [ih hothers]
                  · rw [if_neg hreference] at h ⊢
                    obtain ⟨others, hothers, rfl⟩ := map_eq_ok.mp h
                    rw [ih hothers]

end Dictionary

namespace BitPack

/-- The values that a payload gives. It is measured before the first of them. -/
def made (bytes : Bytes) (count : Nat) : List Int64 :=
  match read bytes count with
  | .error _ => []
  | .ok values => values

theorem length_unpack (w count filled acc : Nat) (bytes : Bytes) :
    (unpack w count filled acc bytes).length = count := by
  induction count generalizing filled acc bytes with
  | zero => rfl
  | succ count ih =>
      rw [unpack, List.length_cons, ih]

theorem length_of_read {bytes : Bytes} {count : Nat} {values : List Int64} (h : read bytes count = .ok values) :
    values.length = count := by
  unfold read at h
  split at h
  · rename_i hzero
    rw [← Except.ok.inj h, hzero]
    rfl
  · split at h
    · cases h
    · simp only at h
      split at h
      · cases h
      · split at h
        · cases h
        · rw [← Except.ok.inj h]
          exact length_unpack _ _ _ _ _

theorem length_made_le (bytes : Bytes) (count : Nat) : (made bytes count).length ≤ count := by
  unfold made
  split
  · exact Nat.zero_le _
  · rename_i hread
    exact Nat.le_of_eq (length_of_read hread)

end BitPack

/-! ## Blocks -/

namespace Context

/-- The residuals that the payload of a block gives until it ends or a fault occurs. A block of an unknown codec is
    not looked into. -/
def made (context : Context) (block : PlacedBlock) : List Int64 :=
  match block.header.codec? with
  | none => []
  | some .varintDelta | some .dodVarint => VarintList.made maxBlockItems block.payload
  | some .bitpackDelta => BitPack.made block.payload block.header.itemCount.toNat
  | some .rleZigzag | some .rleDod => RunLength.made maxBlockItems block.payload
  | some .dictVarint =>
      match context.dictionary with
      | none => []
      | some dictionary => Dictionary.made maxBlockItems block.payload dictionary

/-- **No block gives more values than a block may carry**, whatever its payload says. -/
theorem length_made_le (context : Context) {block : PlacedBlock}
    (h : block.header.itemCount.toNat ≤ maxBlockItems) : (context.made block).length ≤ maxBlockItems := by
  unfold made
  split
  · exact Nat.zero_le _
  · exact VarintList.length_made_le _ _
  · exact VarintList.length_made_le _ _
  · exact Nat.le_trans (BitPack.length_made_le _ _) h
  · exact RunLength.length_made_le _ _
  · exact RunLength.length_made_le _ _
  · split
    · exact Nat.zero_le _
    · exact Dictionary.length_made_le _ _ _

theorem made_of_readPayload {context moved : Context} {block : PlacedBlock} {codec : Codec}
    {residuals : List Int64} (hcodec : block.header.codec? = some codec)
    (h : context.readPayload codec block.header.itemCount.toNat block.payload = .ok (residuals, moved)) :
    context.made block = residuals := by
  unfold readPayload at h
  unfold made
  rw [hcodec]
  cases codec with
  | varintDelta | dodVarint =>
      obtain ⟨values, hread, hvalues⟩ := map_eq_ok.mp h
      rw [← (Prod.mk.inj hvalues).1]
      exact VarintList.made_of_readUpTo hread
  | bitpackDelta =>
      obtain ⟨values, hread, hvalues⟩ := map_eq_ok.mp h
      rw [← (Prod.mk.inj hvalues).1]
      simp only [BitPack.made, hread]
  | rleZigzag | rleDod =>
      obtain ⟨values, hread, hvalues⟩ := map_eq_ok.mp h
      rw [← (Prod.mk.inj hvalues).1]
      exact RunLength.made_of_readUpTo hread
  | dictVarint =>
      cases hdictionary : context.dictionary with
      | none =>
          rw [hdictionary] at h
          exact nomatch h
      | some dictionary =>
          rw [hdictionary] at h
          obtain ⟨values, hread, hvalues⟩ := map_eq_ok.mp h
          rw [← (Prod.mk.inj hvalues).1]
          exact Dictionary.made_of_readUpTo hread

/-- A block that is read holds as many values as its payload gives. -/
theorem length_of_readBlock {context next : Context} {block : PlacedBlock} {values : List Int64}
    (h : context.readBlock block = .ok (values, next)) : values.length = (context.made block).length := by
  unfold readBlock at h
  cases hcodec : block.header.codec? with
  | none =>
      rw [hcodec] at h
      rw [← (Prod.mk.inj (Except.ok.inj h)).1, made, hcodec]
  | some codec =>
      rw [hcodec] at h
      obtain ⟨⟨residuals, moved⟩, hpayload, h⟩ := bind_eq_ok.mp h
      rw [made_of_readPayload hcodec hpayload]
      simp only at h
      split at h
      · exact nomatch h
      · rw [← (Prod.mk.inj (Except.ok.inj h)).1, length_restore]

/-- How many values blocks give until they end or one of them is refused, the values of this block included. -/
def produced (context : Context) : List PlacedBlock → Nat
  | [] => 0
  | block :: blocks =>
      (context.made block).length +
        match context.readBlock block with
        | .error _ => 0
        | .ok (_, next) => next.produced blocks

theorem produced_le (context : Context) {blocks : List PlacedBlock}
    (h : ∀ block ∈ blocks, block.header.itemCount.toNat ≤ maxBlockItems) :
    context.produced blocks ≤ maxBlockItems * blocks.length := by
  induction blocks generalizing context with
  | nil => exact Nat.le_refl 0
  | cons block blocks ih =>
      obtain ⟨hblock, hblocks⟩ := List.forall_mem_cons.mp h
      have hmade := context.length_made_le hblock
      rw [produced, List.length_cons, Nat.mul_succ]
      split
      · -- refused: no block after this one is looked at
        omega
      · rename_i values next hread
        have hrest := ih next hblocks
        omega

/-- When no block is refused, the values are those that the blocks hold. -/
theorem produced_of_readBlocks {context next : Context} {blocks : List PlacedBlock}
    {decoded : List (Column × List Int64)} (h : context.readBlocks blocks = .ok (decoded, next)) :
    context.produced blocks = (decoded.flatMap fun block => block.2).length := by
  induction blocks generalizing context next decoded with
  | nil =>
      rw [← (Prod.mk.inj (Except.ok.inj h)).1]
      rfl
  | cons block blocks ih =>
      obtain ⟨⟨values, between⟩, hblock, h⟩ := bind_eq_ok.mp h
      obtain ⟨⟨others, last⟩, hblocks, h⟩ := bind_eq_ok.mp h
      rw [← (Prod.mk.inj (Except.ok.inj h)).1, produced, hblock, List.flatMap_cons,
        List.length_append, length_of_readBlock hblock]
      simp only
      rw [ih hblocks]

end Context

/-! ## Archives -/

section Archives

variable {bytes : Bytes} {header : FileHeader} {blocks : List PlacedBlock}

theorem length_le_totalSize (blocks : List Block) : BlockHeader.size * blocks.length ≤ totalSize blocks := by
  induction blocks with
  | nil => exact Nat.le_refl 0
  | cons block blocks ih =>
      rw [List.length_cons, totalSize, Nat.mul_succ, Block.size]
      omega

theorem length_flatMap_print (blocks : List Block) : (blocks.flatMap Block.print).length = totalSize blocks := by
  induction blocks with
  | nil => rfl
  | cons block blocks ih => rw [List.flatMap_cons, List.length_append, Block.length_print, ih, totalSize]

/-- **Every block takes eleven bytes** of what file header and end marker leave. -/
theorem length_parsed_le (h : parseArchive bytes = .ok (header, blocks)) :
    blocks.length ≤ (bytes.length - 10) / 11 := by
  obtain ⟨archive, rfl, -, rfl, -⟩ := parseArchive_sound h
  have hsize := length_le_totalSize archive.blocks
  have hlength : archive.print.length = 9 + totalSize archive.blocks + 1 := by
    rw [Archive.print, List.length_append, List.length_append, FileHeader.length_print, length_flatMap_print]
    rfl
  rw [length_place, hlength, Nat.le_div_iff_mul_le (by decide)]
  simp only [BlockHeader.size] at hsize
  omega

/-- Every block of an archive declares an admissible number of values. -/
theorem itemCount_parsed_le (h : parseArchive bytes = .ok (header, blocks)) :
    ∀ block ∈ blocks, block.header.itemCount.toNat ≤ maxBlockItems := by
  obtain ⟨archive, -, -, rfl, hwell⟩ := parseArchive_sound h
  intro block hmem
  have hblock : block.toBlock ∈ (place FileHeader.size archive.blocks).map (·.toBlock) :=
    List.mem_map_of_mem hmem
  rw [map_toBlock_place] at hblock
  exact (hwell _ hblock).itemCount_le

theorem itemCount_headers_le (h : parseArchive bytes = .ok (header, blocks)) :
    ∀ header ∈ blocks.map (·.header), header.itemCount.toNat ≤ maxBlockItems := by
  intro header hmem
  obtain ⟨block, hblock, rfl⟩ := List.mem_map.mp hmem
  exact itemCount_parsed_le h block hblock

/-- How many values decoding makes of bytes, successfully or not. -/
def produced (bytes : Bytes) : Nat :=
  match parseArchive bytes with
  | .error _ => 0
  | .ok (_, blocks) => Context.withDictionary.produced blocks

/-- **The size of an archive bounds its values**, however they are compressed. -/
theorem produced_le (bytes : Bytes) : produced bytes ≤ maxBlockItems * ((bytes.length - 10) / 11) := by
  unfold produced
  split
  · exact Nat.zero_le _
  · rename_i header blocks hparse
    calc Context.withDictionary.produced blocks
        ≤ maxBlockItems * blocks.length := Context.produced_le _ (itemCount_parsed_le hparse)
      _ ≤ maxBlockItems * ((bytes.length - 10) / 11) := Nat.mul_le_mul_left _ (length_parsed_le hparse)

theorem foldl_itemCount_le {headers : List BlockHeader}
    (h : ∀ header ∈ headers, header.itemCount.toNat ≤ maxBlockItems) (total : Nat) :
    headers.foldl (fun total header => total + header.itemCount.toNat) total
      ≤ total + maxBlockItems * headers.length := by
  induction headers generalizing total with
  | nil => exact Nat.le_refl total
  | cons header headers ih =>
      obtain ⟨hheader, hheaders⟩ := List.forall_mem_cons.mp h
      have hrest := ih hheaders (total + header.itemCount.toNat)
      rw [List.foldl_cons, List.length_cons, Nat.mul_succ]
      omega

/-- **The size of an archive bounds what its headers declare.** -/
theorem items_verify_le {summary : Summary} (h : verify bytes = .ok summary) :
    ∀ counts ∈ summary.columns, counts.2.items ≤ maxBlockItems * ((bytes.length - 10) / 11) := by
  obtain ⟨⟨header, blocks⟩, hparse, h⟩ := bind_eq_ok.mp h
  rw [← Except.ok.inj h]
  intro counts hmem
  obtain ⟨column, -, hcounts⟩ := List.mem_filterMap.mp hmem
  unfold countColumn at hcounts
  split at hcounts
  · exact nomatch hcounts
  · rename_i own _ _
    have hown : ∀ header ∈ (blocks.map (·.header)).filter (·.column = column),
        header.itemCount.toNat ≤ maxBlockItems :=
      fun header hheader => itemCount_headers_le hparse header (List.mem_filter.mp hheader).1
    have hlength : ((blocks.map (·.header)).filter (·.column = column)).length ≤ blocks.length :=
      Nat.le_trans (List.length_filter_le _ _) (Nat.le_of_eq (List.length_map _))
    have hitems := foldl_itemCount_le hown 0
    rw [Nat.zero_add] at hitems
    rw [← Option.some.inj hcounts]
    exact Nat.le_trans hitems (Nat.mul_le_mul_left _ (Nat.le_trans hlength (length_parsed_le hparse)))

end Archives

end SnapshotArchive

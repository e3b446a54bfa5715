import SnapshotArchive.Proofs.Carving
import SnapshotArchive.Proofs.InPlaceReading
import SnapshotArchive.Proofs.Truncation

/-!
# `Proofs.Containment` — hostile bytes are contained

Whatever bytes a reader is given, it answers or ends in one of the three kinds of fault that say what is wrong with
bytes. It never runs out of its ranges on the way: every reader equals its counterpart in place, where indexing,
slicing and arithmetic out of range would trap. And it makes no more of the bytes than their number allows: there
are as many blocks as headers fit in, and no block gives more values than a block may carry.

## Contents
- **Contained computations.** `Contained`, closed under what readers are made of.
- **Payloads.** `VarintList.contained_readUpTo`, `RunLength.contained_readUpTo`, `Dictionary.contained_readUpTo`,
  `BitPack.contained_read`.
- **Archives.** `contained_parseArchive`, `contained_readBlocks`, `contained_assemble`; `reading_contained`.
-/

namespace SnapshotArchive

/-! ## Contained computations -/

/-- The computation answers, or it ends in a kind of fault that arbitrary bytes may end in. -/
def Contained {α : Type} (computation : Except Fault α) : Prop :=
  (∃ answer, computation = .ok answer) ∨ FailsWith Fault.Kind.isRecognized computation

section Contained

variable {α β : Type}

theorem contained_ok (answer : α) : Contained (.ok answer : Except Fault α) := .inl ⟨answer, rfl⟩

theorem contained_error {fault : Fault} (h : fault.kind.isRecognized = true) :
    Contained (.error fault : Except Fault α) := .inr ⟨fault, rfl, h⟩

theorem contained_iff {computation : Except Fault α} :
    Contained computation ↔ FailsOnly Fault.Kind.isRecognized computation := by
  cases computation with
  | ok answer => exact ⟨fun _ => failsOnly_ok answer, fun _ => contained_ok answer⟩
  | error fault =>
      constructor
      · rintro (⟨answer, hanswer⟩ | ⟨other, hother, hkind⟩)
        · exact nomatch hanswer
        · exact failsOnly_error (Except.error.inj hother ▸ hkind)
      · intro h
        exact contained_error (h fault rfl)

/-- A fault that is contained in one computation is contained in every other. -/
theorem contained_of_error {fault : Fault} (h : Contained (.error fault : Except Fault α)) :
    Contained (.error fault : Except Fault β) := contained_error (contained_iff.mp h fault rfl)

namespace Contained

variable {computation : Except Fault α}

theorem bind {next : α → Except Fault β} (h : Contained computation)
    (hnext : ∀ a, computation = .ok a → Contained (next a)) : Contained (computation >>= next) :=
  contained_iff.mpr ((contained_iff.mp h).bind fun a ha => contained_iff.mp (hnext a ha))

theorem map (h : Contained computation) (f : α → β) : Contained (computation.map f) :=
  contained_iff.mpr ((contained_iff.mp h).map f)

/-- A check in front of a computation. -/
theorem check {condition : Prop} [Decidable condition] {fault : Fault} (hkind : fault.kind.isRecognized = true)
    (h : Contained computation) : Contained (if condition then .error fault else computation) :=
  contained_iff.mpr ((contained_iff.mp h).check hkind)

end Contained

end Contained

/-! ## Payloads -/

/-- A word that is not read fails with a fault that is contained. -/
theorem contained_of_read {α : Type} {bytes rest : Bytes} {fault : Fault}
    (h : Varint.read bytes = (.error fault, rest)) : Contained (.error fault : Except Fault α) := by
  obtain ⟨-, rfl⟩ := Varint.read_eq_error h
  refine contained_error ?_
  rw [Varint.kind_faultAt]
  rfl

theorem VarintList.contained_readUpTo (room : Nat) (bytes : Bytes) : Contained (readUpTo room bytes) := by
  induction room generalizing bytes with
  | zero =>
      cases bytes with
      | nil => exact contained_ok _
      | cons byte bytes => exact contained_error rfl
  | succ room ih =>
      cases bytes with
      | nil => exact contained_ok _
      | cons byte bytes =>
          unfold readUpTo
          split
          · rename_i fault rest hread
            exact contained_of_read hread
          · exact (ih _).map _

theorem RunLength.contained_readUpTo (room : Nat) (bytes : Bytes) : Contained (readUpTo room bytes) := by
  fun_induction readUpTo room bytes with
  | case1 => exact contained_ok _
  | case2 room byte bytes fault rest hread => exact contained_of_read hread
  | case3 => exact contained_error rfl
  | case4 => exact contained_error rfl
  | case5 room byte bytes run rest _ count _ _ fault unread hread => exact contained_of_read hread
  | case6 => exact contained_error rfl
  | case7 room byte bytes run rest _ count _ _ word tail _ _ ih => exact ih.map _

theorem Dictionary.contained_readUpTo (room : Nat) (bytes : Bytes) (dictionary : Dictionary) :
    Contained (readUpTo room bytes dictionary).1 := by
  induction room generalizing bytes dictionary with
  | zero =>
      cases bytes with
      | nil => exact contained_ok _
      | cons byte bytes => exact contained_error rfl
  | succ room ih =>
      cases bytes with
      | nil => exact contained_ok _
      | cons byte bytes =>
          unfold readUpTo
          split
          · rename_i fault rest hread
            exact contained_of_read hread
          · split
            · simp only
              split
              · exact contained_error rfl
              · exact (ih _ _).map _
            · exact (ih _ _).map _

theorem BitPack.contained_read (bytes : Bytes) (count : Nat) : Contained (read bytes count) := by
  unfold read
  split
  · exact contained_ok _
  · split
    · exact contained_error rfl
    · apply Contained.check rfl
      apply Contained.check rfl
      exact contained_ok _

/-! ## Archives -/

theorem contained_checkMagic (bytes : Bytes) : Contained (checkMagic bytes) := by
  unfold checkMagic
  split
  · exact contained_ok _
  · split
    · exact contained_error rfl
    · exact contained_error rfl

theorem FileHeader.contained_parse (bytes : Bytes) : Contained (parse bytes) := by
  unfold parse
  apply (contained_checkMagic bytes).bind
  intro _ _
  split
  · exact contained_error rfl
  · exact (contained_ok _).check rfl

theorem contained_openFrame (bytes : Bytes) : Contained (openFrame bytes) := by
  unfold openFrame
  apply (contained_checkMagic bytes).bind
  intro _ _
  apply Contained.check rfl
  apply (FileHeader.contained_parse bytes.dropLast).bind
  intro header _
  exact contained_ok _

theorem BlockHeader.contained_parse (bytes : Bytes) : Contained (parse bytes) := by
  unfold parse
  simp only
  split
  · exact contained_error rfl
  · exact (contained_ok _).check rfl

theorem contained_parseBlock (offset : Nat) (region : Bytes) : Contained (parseBlock offset region) := by
  unfold parseBlock
  split
  · exact contained_error rfl
  · rename_i front rest hfront
    apply (BlockHeader.contained_parse front).bind
    intro header _
    split
    · exact contained_error rfl
    · exact contained_ok _

theorem contained_parseBlocks (offset : Nat) (region : Bytes) : Contained (parseBlocks offset region) := by
  fun_induction parseBlocks offset region with
  | case1 => exact contained_ok _
  | case2 offset region _ fault hblock =>
      have hcontained := contained_parseBlock offset region
      rw [hblock] at hcontained
      exact contained_of_error hcontained
  | case3 offset region _ block rest hblock _ ih => exact ih.map _

theorem contained_parseArchive (bytes : Bytes) : Contained (parseArchive bytes) := by
  unfold parseArchive
  apply (contained_openFrame bytes).bind
  rintro ⟨header, region⟩ _
  apply (contained_parseBlocks FileHeader.size region).bind
  intro blocks _
  exact contained_ok _

namespace Context

theorem contained_readPayload (context : Context) (codec : Codec) (itemCount : Nat) (payload : Bytes) :
    Contained (context.readPayload codec itemCount payload) := by
  unfold readPayload
  cases codec with
  | varintDelta | dodVarint => exact (VarintList.contained_readUpTo _ _).map _
  | bitpackDelta => exact (BitPack.contained_read _ _).map _
  | rleZigzag | rleDod => exact (RunLength.contained_readUpTo _ _).map _
  | dictVarint =>
      simp only
      split
      · exact contained_error rfl
      · exact (Dictionary.contained_readUpTo _ _ _).map _

theorem contained_readBlock (context : Context) (block : PlacedBlock) : Contained (context.readBlock block) := by
  unfold readBlock
  split
  · exact contained_ok _
  · apply (context.contained_readPayload _ _ _).bind
    rintro ⟨residuals, moved⟩ _
    exact (contained_ok _).check rfl

theorem contained_readBlocks (context : Context) (blocks : List PlacedBlock) :
    Contained (context.readBlocks blocks) := by
  induction blocks generalizing context with
  | nil => exact contained_ok _
  | cons block blocks ih =>
      unfold readBlocks
      apply (context.contained_readBlock block).bind
      rintro ⟨values, next⟩ _
      apply (ih next).bind
      intro decoded _
      exact contained_ok _

end Context

namespace Columns

theorem contained_assemble (columns : Columns) : Contained columns.assemble := by
  apply contained_iff.mpr
  apply columns.failsOnly_assemble.mono
  intro kind hkind
  rw [of_decide_eq_true hkind]
  rfl

end Columns

theorem contained_decode (bytes : Bytes) : Contained (decode bytes) := by
  unfold decode
  apply (contained_parseArchive bytes).bind
  rintro ⟨header, blocks⟩ _
  have hcolumns : Contained (readColumns blocks) := by
    unfold readColumns
    apply (Context.contained_readBlocks _ blocks).bind
    intro decoded _
    exact contained_ok _
  apply hcolumns.bind
  intro columns _
  exact columns.contained_assemble

theorem contained_verify (bytes : Bytes) : Contained (verify bytes) := by
  unfold verify
  apply (contained_parseArchive bytes).bind
  rintro ⟨header, blocks⟩ _
  exact contained_ok _

/-- **Hostile bytes are contained.** For all bytes: decoding, verifying, reading the blocks and reading the file
    header answer or end in one of the kinds of fault that arbitrary bytes may end in. All four equal their
    counterparts in place, so that no index, slice, shift, difference or sum on the way is out of range; for the sums
    of a summary this takes that as many values as an archive of this size can declare are countable with 64 bits,
    as they are up to twenty thousand terabytes. There are no more blocks than headers fit between file header and
    end marker. No block gives more values than a block may carry, whatever the context that it is read in, and it
    holds no values but these. So the size of the bytes bounds both the number of values that decoding makes of them,
    whether it succeeds or not, and the number of values that a summary of them counts. -/
theorem reading_contained (bytes : Bytes) :
    (Contained (decode bytes) ∧ Contained (verify bytes) ∧ Contained (parseArchiveBlocks bytes) ∧
      Contained (parseFileHeader bytes)) ∧
    (InPlace.decode bytes = Guarded.safely (decode bytes) ∧
      InPlace.parseArchiveBlocks bytes = Guarded.safely (parseArchiveBlocks bytes) ∧
      InPlace.parseFileHeader bytes = Guarded.safely (parseFileHeader bytes) ∧
      (maxBlockItems * ((bytes.length - 10) / 11) < UInt64.size →
        InPlace.verify bytes = Guarded.safely (verify bytes))) ∧
    (∀ blocks, parseArchiveBlocks bytes = .ok blocks →
      blocks.length ≤ (bytes.length - 10) / 11 ∧
      (∀ block ∈ blocks, ∀ context : Context,
        (context.made block).length ≤ maxBlockItems ∧
        ∀ values next, context.readBlock block = .ok (values, next) →
          values.length = (context.made block).length) ∧
      produced bytes = Context.withDictionary.produced blocks ∧
      ∀ decoded next, Context.withDictionary.readBlocks blocks = .ok (decoded, next) →
        produced bytes = (decoded.flatMap fun block => block.2).length) ∧
    produced bytes ≤ maxBlockItems * ((bytes.length - 10) / 11) ∧
    ∀ summary, verify bytes = .ok summary →
      ∀ counts ∈ summary.columns, counts.2.items ≤ maxBlockItems * ((bytes.length - 10) / 11) := by
  refine ⟨⟨?_, ?_, ?_, ?_⟩, ⟨?_, ?_, ?_, ?_⟩, ?_, ?_, ?_⟩
  · exact contained_decode bytes
  · exact contained_verify bytes
  · exact (contained_parseArchive bytes).map _
  · exact (contained_openFrame bytes).map _
  · exact InPlace.decode_eq bytes
  · exact InPlace.parseArchiveBlocks_eq bytes
  · exact InPlace.parseFileHeader_eq bytes
  · intro hcountable
    exact InPlace.verify_eq hcountable
  · intro blocks hblocks
    obtain ⟨header, hparse⟩ := parseArchiveBlocks_eq_ok_iff.mp hblocks
    have hproduced : produced bytes = Context.withDictionary.produced blocks := by
      unfold produced
      rw [hparse]
    refine ⟨length_parsed_le hparse, ?_, hproduced, ?_⟩
    · intro block hmem context
      refine ⟨context.length_made_le (itemCount_parsed_le hparse block hmem), ?_⟩
      intro values next hread
      exact Context.length_of_readBlock hread
    · intro decoded next hread
      rw [hproduced, Context.produced_of_readBlocks hread]
  · exact produced_le bytes
  · intro summary hsummary
    exact items_verify_le hsummary

/-- An archive of 39 bytes whose only block holds runs of two thousand values each, one run more than a block may
    carry. -/
def overfullArchive : Archive where
  flags := fieldwiseTimestamps
  blocks := [{
    header := { column := .time, codecId := Codec.rleZigzag.id, itemCount := 10000, payloadSize := 18, flags := 0 }
    payload := (List.replicate 6 [0xD0, 0x0F, 0x02]).flatten }]

theorem overfullArchive_contained :
    Contained (decode overfullArchive.print) ∧
    InPlace.verify overfullArchive.print = Guarded.safely (verify overfullArchive.print) ∧
    (∃ blocks, parseArchiveBlocks overfullArchive.print = .ok blocks ∧
      ∀ block ∈ blocks, (Context.withDictionary.made block).length ≤ 10000) ∧
    produced overfullArchive.print ≤ 20000 := by
  have hwell : ∀ block ∈ overfullArchive.blocks, block.WellFormed := by
    intro block hmem
    rw [List.mem_singleton.mp hmem]
    exact ⟨by decide, by decide⟩
  have hblocks := parseArchiveBlocks_eq_ok_iff.mpr ⟨_, parseArchive_print overfullArchive hwell⟩
  obtain ⟨⟨hdecode, -⟩, ⟨-, -, -, hverify⟩, hread, hproduced, -⟩ := reading_contained overfullArchive.print
  obtain ⟨-, hmade, -⟩ := hread _ hblocks
  exact ⟨hdecode, hverify (by decide), ⟨_, hblocks, fun block hmem => (hmade block hmem _).1⟩, hproduced⟩

end SnapshotArchive

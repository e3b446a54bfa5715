import Mathlib.Data.List.Forall2
import SnapshotArchive.Proofs.Groups
import SnapshotArchive.Proofs.Payloads
import SnapshotArchive.Proofs.Truncation

/-!
# `Proofs.WordLists` — the form of a payload of varints

A payload is words, one after the other, and nothing says where one ends and the next begins. Nothing has to: of all
beginnings of a byte string at most one spells a word, since it is what a reader takes off the front. So the bytes are
split into words in one way or in none, and a payload is read exactly if there is a way and a block has room for the
words.

## Contents
- **Splits.** `Varint.eq_of_flatten_eq`: bytes are split into words in one way.
- **Payloads.** `VarintList.Spells`; `VarintList.readUpTo_of_spells`, `VarintList.spells_of_readUpTo`.
- **The result.** `VarintList.payload_words`.
-/

namespace SnapshotArchive

/-! ## Splits -/

namespace Varint

/-- **Bytes are split into words in one way**, if in any. -/
theorem eq_of_flatten_eq {words others : List Bytes} (hwords : ∀ word ∈ words, ∃ n, Spells word n)
    (hothers : ∀ word ∈ others, ∃ n, Spells word n) (h : words.flatten = others.flatten) : words = others := by
  induction words generalizing others with
  | nil =>
      cases others with
      | nil => rfl
      | cons other others =>
          obtain ⟨⟨m, hother⟩, -⟩ := List.forall_mem_cons.mp hothers
          exact absurd (List.append_eq_nil_iff.mp h.symm).1 hother.ne_nil
  | cons word words ih =>
      obtain ⟨⟨n, hword⟩, hwords⟩ := List.forall_mem_cons.mp hwords
      cases others with
      | nil => exact absurd (List.append_eq_nil_iff.mp h).1 hword.ne_nil
      | cons other others =>
          obtain ⟨⟨m, hother⟩, hbehind⟩ := List.forall_mem_cons.mp hothers
          rw [List.flatten_cons, List.flatten_cons] at h
          obtain ⟨rfl, hrest⟩ := hword.append_inj hother h
          rw [ih hwords hbehind hrest]

end Varint

namespace VarintList

/-! ## Payloads -/

/-- The word spells the value: a number whose place in 0, -1, 1, -2, 2, … is that of the value. -/
def SpellsValue (word : Bytes) (value : Int64) : Prop :=
  ∃ n, Varint.Spells word n ∧ unzigzag (UInt64.ofNat n) = value

/-- **The words spell the values**, one each, in whatever spelling. -/
def Spells (words : List Bytes) (values : List Int64) : Prop := List.Forall₂ SpellsValue words values

variable {words : List Bytes} {values : List Int64} {bytes : Bytes}

/-- A word in front is read if there is room for it. -/
theorem readUpTo_word {word : Bytes} {value : Int64} (h : SpellsValue word value) (room : Nat) (rest : Bytes) :
    readUpTo room (word ++ rest) =
      if room = 0 then .error .tooManyVarints else (readUpTo (room - 1) rest).map (value :: ·) := by
  obtain ⟨n, hword, rfl⟩ := h
  have hread := hword.read_eq rest
  obtain ⟨byte, others, rfl⟩ := List.exists_cons_of_ne_nil hword.ne_nil
  rw [List.cons_append] at hread ⊢
  cases room with
  | zero => rfl
  | succ room =>
      rw [readUpTo, hread]
      rfl

/-- **Words are read as far as there is room for them.** -/
theorem readUpTo_of_spells (h : Spells words values) (room : Nat) :
    readUpTo room words.flatten = if values.length ≤ room then .ok values else .error .tooManyVarints := by
  induction h generalizing room with
  | nil => rw [List.flatten_nil, readUpTo_nil, List.length_nil, if_pos (Nat.zero_le room)]
  | @cons word value words values hword _ ih =>
      rw [List.flatten_cons, readUpTo_word hword, ih, List.length_cons]
      cases room with
      | zero => rfl
      | succ room =>
          rw [if_neg (Nat.succ_ne_zero room), Nat.add_sub_cancel]
          by_cases hroom : values.length ≤ room
          · rw [if_pos hroom, if_pos (Nat.succ_le_succ hroom)]
            rfl
          · rw [if_neg hroom, if_neg (mt Nat.le_of_succ_le_succ hroom)]
            rfl

/-- **What is read is words**, for which there is room. -/
theorem spells_of_readUpTo {room : Nat} (h : readUpTo room bytes = .ok values) :
    ∃ words, words.flatten = bytes ∧ values.length ≤ room ∧ Spells words values := by
  fun_induction readUpTo room bytes generalizing values with
  | case1 room =>
      obtain rfl := Except.ok.inj h
      exact ⟨[], rfl, Nat.zero_le room, .nil⟩
  | case4 room byte bytes word rest hread ih =>
      obtain ⟨others, hothers, rfl⟩ := map_eq_ok.mp h
      obtain ⟨words, rfl, hroom, hspells⟩ := ih hothers
      obtain ⟨front, hfront, hword⟩ := Varint.read_eq_ok_iff.mp hread
      have hvalue : SpellsValue front (unzigzag word) := ⟨word.toNat, hword, by rw [UInt64.ofNat_toNat]⟩
      exact ⟨front :: words, hfront.symm, Nat.succ_le_succ hroom, .cons hvalue hspells⟩
  | _ => exact nomatch h

/-- What is written for values is their words. -/
theorem spells_write (values : List Int64) : Spells (values.map fun value => Varint.write (zigzag value)) values := by
  apply List.forall₂_map_left_iff.mpr
  apply List.forall₂_same.mpr
  intro value _
  exact ⟨(zigzag value).toNat, Varint.spells_write (zigzag value), by rw [UInt64.ofNat_toNat, unzigzag_zigzag]⟩

/-! ## The result -/

/-- **The form of a payload of varints.** What is written for values is read back if a block has room for them, and else
    the limit is exceeded. What is read, from whatever bytes, is words, as many as there is room for: all of the bytes
    are split into spellings of one to ten bytes, each of a number of 64 bits, whose values are what is read; and all
    bytes that are split so are read so. There is no other split of these bytes. -/
theorem payload_words :
    (∀ values : List Int64,
      (values.length ≤ maxBlockItems → read (write values) = .ok values) ∧
      (maxBlockItems < values.length → FailsWith (· = .limit) (read (write values)))) ∧
    ∀ bytes : Bytes,
      (∀ values : List Int64, read bytes = .ok values ↔
        ∃ words : List Bytes, words.flatten = bytes ∧ values.length ≤ maxBlockItems ∧
          List.Forall₂ (fun word value => ∃ n, Varint.Spells word n ∧ unzigzag (UInt64.ofNat n) = value)
            words values) ∧
      ∀ words others : List Bytes, words.flatten = bytes → others.flatten = bytes →
        (∀ word ∈ words, ∃ n, Varint.Spells word n) → (∀ word ∈ others, ∃ n, Varint.Spells word n) →
        words = others := by
  refine ⟨fun values => ⟨read_write, fun hlong => ?_⟩, fun bytes => ⟨fun values => ⟨spells_of_readUpTo, ?_⟩, ?_⟩⟩
  · refine ⟨.tooManyVarints, ?_, rfl⟩
    have hread := readUpTo_of_spells (spells_write values) maxBlockItems
    rw [if_neg (Nat.not_le.mpr hlong)] at hread
    exact hread
  · rintro ⟨words, rfl, hroom, hspells⟩
    unfold read
    rw [readUpTo_of_spells hspells, if_pos hroom]
  · rintro words others rfl hothers hwords hspelled
    exact Varint.eq_of_flatten_eq hwords hspelled hothers.symm

/-- As many values as a block holds, one more than that, and a word with a group that adds nothing, behind which the
    next word begins. -/
theorem payload_words_longSpelling :
    read (write (List.replicate 10000 (-1))) = .ok (List.replicate 10000 (-1)) ∧
      FailsWith (· = .limit) (read (write (List.replicate 10001 (-1)))) ∧
      read [0x83, 0x00, 0x02] = .ok [-2, 1] ∧
      [Varint.write 3, Varint.write 2] = [[0x03], [0x02]] := by
  have hthree : Varint.Spells [0x83, 0x00] 3 := ⟨⟨[0x83], 0x00, rfl, by simp, by decide⟩, by decide, rfl, by decide⟩
  have htwo : Varint.Spells [0x02] 2 := ⟨⟨[], 0x02, rfl, by simp, by decide⟩, by decide, rfl, by decide⟩
  have hshort : Varint.Spells [0x03] 3 := ⟨⟨[], 0x03, rfl, by simp, by decide⟩, by decide, rfl, by decide⟩
  refine ⟨(payload_words.1 _).1 ?_, (payload_words.1 _).2 ?_, ((payload_words.2 _).1 _).mpr ?_,
    (payload_words.2 [0x03, 0x02]).2 _ _ (by decide +kernel) rfl ?_ ?_⟩
  · rw [List.length_replicate]
    decide
  · rw [List.length_replicate]
    decide
  · exact ⟨[[0x83, 0x00], [0x02]], rfl, by decide, .cons ⟨3, hthree, by decide⟩ (.cons ⟨2, htwo, by decide⟩ .nil)⟩
  · exact List.forall_mem_cons.mpr ⟨⟨_, Varint.spells_write 3⟩,
      List.forall_mem_singleton.mpr ⟨_, Varint.spells_write 2⟩⟩
  · exact List.forall_mem_cons.mpr ⟨⟨3, hshort⟩, List.forall_mem_singleton.mpr ⟨2, htwo⟩⟩

end VarintList

end SnapshotArchive

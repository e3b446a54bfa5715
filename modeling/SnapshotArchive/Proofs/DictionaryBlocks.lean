import Mathlib.Algebra.Group.Int.Defs
import SnapshotArchive.Proofs.Dictionary
import SnapshotArchive.Proofs.Truncation

/-!
# `Proofs.DictionaryBlocks` — payload after payload through one dictionary

A dictionary outlives the payload that filled it. Whatever a dictionary has been through, its index and its slots
agree, and that is all a payload needs: a reader whose dictionary agrees with the writer's reads the values back
and ends in agreement with the writer again, so that the next payload can be read too. The ring may have wrapped
around any number of times in between.

## Contents
- **Literal words.** `InLiteralRange`, the numbers that a literal word spells.
- **Agreement.** `Dictionary.Agrees`, kept by insertion and by reading.
- **Histories.** `Dictionary.Reachable`, what a dictionary can have been through.
- **Payload after payload.** `Dictionary.writeEach`, `Dictionary.readEach`, `Dictionary.readEach_writeEach`.
- **The result.** `Dictionary.Reachable.reads_back`.
-/

namespace SnapshotArchive

/-! ## Literal words -/

/-- The numbers that a literal word spells. -/
def InLiteralRange (value : Int64) : Prop :=
  -2 ^ 62 ≤ value.toInt ∧ value.toInt < 2 ^ 62

theorem fitsLiteral_iff_inLiteralRange (value : Int64) : fitsLiteral value = true ↔ InLiteralRange value := by
  have hsign : value < 0 ↔ value.toInt < 0 := Int64.lt_iff_toInt_lt
  have hnumber : value.toInt = _ := BitVec.toInt_eq_toNat_cond value.toBitVec
  have hword : value.toBitVec.toNat = value.toUInt64.toNat := Int64.toNat_toBitVec value
  have hlt := value.toUInt64.toNat_lt
  rw [hword] at hnumber
  rw [Dictionary.fitsLiteral_iff, toNat_zigzag, InLiteralRange]
  by_cases hneg : value < 0
  · rw [if_pos hneg]
    rw [hsign] at hneg
    split at hnumber <;> omega
  · rw [if_neg hneg]
    rw [hsign] at hneg
    split at hnumber <;> omega

namespace Dictionary

/-! ## Agreement -/

/-- The tables are the same: their slots, the slot that is next, and where a value is found. -/
structure Agrees (dictionary other : Dictionary) : Prop where
  capacity : dictionary.capacity = other.capacity
  entries : dictionary.entries = other.entries
  cursor : dictionary.cursor = other.cursor
  slot? : ∀ value, dictionary.slot? value = other.slot? value

variable {dictionary other reader writer : Dictionary}

theorem Agrees.refl (dictionary : Dictionary) : dictionary.Agrees dictionary := ⟨rfl, rfl, rfl, fun _ => rfl⟩

theorem Agrees.value? (h : dictionary.Agrees other) (slot : Nat) : dictionary.value? slot = other.value? slot := by
  unfold Dictionary.value?
  rw [h.entries]

theorem Agrees.size (h : dictionary.Agrees other) : dictionary.size = other.size :=
  congrArg List.length h.entries

/-- **A value inserted on both sides leaves them in agreement.** -/
theorem Agrees.insert (h : dictionary.Agrees other) (value : Int64) :
    (dictionary.insert value).Agrees (other.insert value) := by
  cases hslot : dictionary.slot? value with
  | some slot =>
      rw [insert_of_slot? hslot, insert_of_slot? ((h.slot? value).symm.trans hslot)]
      exact h
  | none =>
      have hother : other.slot? value = none := (h.slot? value).symm.trans hslot
      by_cases hroom : dictionary.size < dictionary.capacity
      · have hroom' : other.size < other.capacity := h.size ▸ h.capacity ▸ hroom
        have hslots (held : Int64) : (dictionary.insert value).slot? held = (other.insert value).slot? held := by
          rw [slot?_insert_of_room hslot hroom, slot?_insert_of_room hother hroom', h.size, h.slot?]
        rw [insert_of_room hslot hroom, insert_of_room hother hroom'] at hslots ⊢
        exact ⟨h.capacity, congrArg (· ++ [value]) h.entries, h.cursor, hslots⟩
      · have hfull : ¬other.size < other.capacity := h.size ▸ h.capacity ▸ hroom
        have hslots (held : Int64) : (dictionary.insert value).slot? held = (other.insert value).slot? held := by
          -- both indices forget the value that the slot held
          rw [slot?_insert_of_full hslot hroom, slot?_insert_of_full hother hfull, h.cursor, h.value?, h.slot?]
        rw [insert_of_full hslot hroom, insert_of_full hother hfull] at hslots ⊢
        refine ⟨h.capacity, ?_, ?_, hslots⟩
        · show dictionary.entries.set dictionary.cursor value = other.entries.set other.cursor value
          rw [h.entries, h.cursor]
        · show (dictionary.cursor + 1) % dictionary.capacity = (other.cursor + 1) % other.capacity
          rw [h.cursor, h.capacity]

/-- **Dictionaries that agree read the same values, and agree afterwards.** -/
theorem Agrees.readUpTo (h : dictionary.Agrees other) (room : Nat) (bytes : Bytes) :
    (Dictionary.readUpTo room bytes dictionary).1 = (Dictionary.readUpTo room bytes other).1
      ∧ (Dictionary.readUpTo room bytes dictionary).2.Agrees (Dictionary.readUpTo room bytes other).2 := by
  induction room generalizing bytes dictionary other with
  | zero => cases bytes <;> exact ⟨rfl, h⟩
  | succ room ih =>
      cases bytes with
      | nil => exact ⟨rfl, h⟩
      | cons byte bytes =>
          unfold Dictionary.readUpTo
          cases hread : Varint.read (byte :: bytes) with
          | mk answer rest =>
              cases answer with
              | error fault => exact ⟨rfl, h⟩
              | ok word =>
                  simp only [h.value?]
                  split
                  · split
                    · exact ⟨rfl, h⟩
                    · obtain ⟨hvalues, hagree⟩ := ih h rest
                      exact ⟨congrArg (Except.map _) hvalues, hagree⟩
                  · obtain ⟨hvalues, hagree⟩ := ih (h.insert _) rest
                    exact ⟨congrArg (Except.map _) hvalues, hagree⟩

/-! ## Histories -/

/-- What a new dictionary can become: values are inserted, payloads are written, and payloads are read, whether
    or not the reading succeeds. -/
inductive Reachable (capacity : Nat) : Dictionary → Prop where
  | new : Reachable capacity (new capacity)
  | insert {dictionary : Dictionary} (value : Int64) :
      Reachable capacity dictionary → Reachable capacity (dictionary.insert value)
  | write {dictionary : Dictionary} (values : List Int64) :
      Reachable capacity dictionary → Reachable capacity (dictionary.write values).2
  | read {dictionary : Dictionary} (bytes : Bytes) :
      Reachable capacity dictionary → Reachable capacity (dictionary.read bytes).2

/-- **Index and slots agree through any history.** -/
theorem Reachable.consistent {capacity : Nat} (h : Reachable capacity dictionary) : dictionary.Consistent := by
  induction h with
  | new => exact consistent_new capacity
  | insert value _ ih => exact ih.insert value
  | write values _ ih => exact (ih.write values).1
  | read bytes _ ih => exact ih.readUpTo maxBlockItems bytes

/-! ## Payload after payload -/

/-- The payloads of lists of values, and the dictionary after them. -/
def writeEach (dictionary : Dictionary) : List (List Int64) → List Bytes × Dictionary
  | [] => ([], dictionary)
  | values :: rest =>
      let (bytes, dictionary) := dictionary.write values
      let (payloads, dictionary) := dictionary.writeEach rest
      (bytes :: payloads, dictionary)

/-- What the payloads are read as, one after the other, and the dictionary after them. -/
def readEach (dictionary : Dictionary) : List Bytes → List (Except Fault (List Int64)) × Dictionary
  | [] => ([], dictionary)
  | bytes :: rest =>
      let (reply, dictionary) := dictionary.read bytes
      let (replies, dictionary) := dictionary.readEach rest
      (reply :: replies, dictionary)

theorem size_le_writeEach (dictionary : Dictionary) (blocks : List (List Int64)) :
    dictionary.size ≤ (dictionary.writeEach blocks).2.size := by
  induction blocks generalizing dictionary with
  | nil => exact Nat.le_refl _
  | cons values blocks ih => exact Nat.le_trans (dictionary.size_le_write values) (ih _)

/-- A payload of any length, read with a dictionary that agrees with the writer's. -/
theorem Agrees.read_write (h : reader.Agrees writer) (hconsistent : writer.Consistent) {values : List Int64}
    (hsize : (writer.write values).2.size ≤ 2 ^ 63) (hfits : ∀ value ∈ values, fitsLiteral value = true) :
    (reader.read (writer.write values).1).1 =
        (if values.length ≤ maxBlockItems then .ok values else .error .tooManyDictionaryWords)
      ∧ (reader.read (writer.write values).1).2.Agrees (writer.write (values.take maxBlockItems)).2 := by
  obtain ⟨hreply, hagree⟩ := h.readUpTo maxBlockItems (writer.write values).1
  rw [readUpTo_write hconsistent hsize hfits] at hreply hagree
  exact ⟨hreply, hagree⟩

/-- **Payloads are read back one after the other, and the dictionaries stay in agreement.** -/
theorem readEach_writeEach (hconsistent : writer.Consistent) (hagree : reader.Agrees writer)
    {blocks : List (List Int64)} (hsize : (writer.writeEach blocks).2.size ≤ 2 ^ 63)
    (hblocks : ∀ block ∈ blocks,
      block.length ≤ maxBlockItems ∧ ∀ value ∈ block, fitsLiteral value = true) :
    (reader.readEach (writer.writeEach blocks).1).1 = blocks.map .ok
      ∧ (reader.readEach (writer.writeEach blocks).1).2.Agrees (writer.writeEach blocks).2 := by
  induction blocks generalizing reader writer with
  | nil => exact ⟨rfl, hagree⟩
  | cons values blocks ih =>
      obtain ⟨hroom, hfits⟩ := hblocks values List.mem_cons_self
      have hfirst : (writer.write values).2.size ≤ 2 ^ 63 := Nat.le_trans (size_le_writeEach _ blocks) hsize
      obtain ⟨hreply, hafter⟩ := hagree.read_write hconsistent hfirst hfits
      rw [if_pos hroom] at hreply
      rw [List.take_of_length_le hroom] at hafter
      obtain ⟨hreplies, hend⟩ := ih (hconsistent.write values).1 hafter hsize
        fun block hblock => hblocks block (List.mem_cons_of_mem _ hblock)
      exact ⟨congrArg₂ List.cons hreply hreplies, hend⟩

/-! ## The result -/

/-- **Whatever a dictionary has been through, payloads are read back and leave both sides in agreement**, one of
    them or any number one after the other; a payload of more values than a block may hold is refused. The values
    are those that a literal word spells. A reference has 63 bits for the slot, so the writer must not end with
    more than `2 ^ 63` values in its table, which is more than any memory holds. -/
theorem Reachable.reads_back {capacity : Nat} (hreachable : Reachable capacity writer)
    (hagree : reader.Agrees writer) :
    (∀ value, fitsLiteral value = true ↔ InLiteralRange value)
      ∧ (∀ values : List Int64, (∀ value ∈ values, InLiteralRange value) →
          (writer.write values).2.size ≤ 2 ^ 63 →
          (values.length ≤ maxBlockItems →
              (reader.read (writer.write values).1).1 = .ok values
                ∧ (reader.read (writer.write values).1).2.Agrees (writer.write values).2)
            ∧ (maxBlockItems < values.length →
              FailsWith (· = .limit) (reader.read (writer.write values).1).1))
      ∧ ∀ blocks : List (List Int64),
          (∀ values ∈ blocks, values.length ≤ maxBlockItems ∧ ∀ value ∈ values, InLiteralRange value) →
          (writer.writeEach blocks).2.size ≤ 2 ^ 63 →
          (reader.readEach (writer.writeEach blocks).1).1 = blocks.map .ok
            ∧ (reader.readEach (writer.writeEach blocks).1).2.Agrees (writer.writeEach blocks).2 := by
  have hfits : ∀ values : List Int64, (∀ value ∈ values, InLiteralRange value) →
      ∀ value ∈ values, fitsLiteral value = true :=
    fun values hrange value hvalue => (fitsLiteral_iff_inLiteralRange value).mpr (hrange value hvalue)
  refine ⟨fitsLiteral_iff_inLiteralRange, ?_, ?_⟩
  · intro values hrange hsize
    obtain ⟨hreply, hafter⟩ := hagree.read_write hreachable.consistent hsize (hfits values hrange)
    constructor
    · intro hroom
      rw [if_pos hroom] at hreply
      rw [List.take_of_length_le hroom] at hafter
      exact ⟨hreply, hafter⟩
    · intro hlong
      rw [if_neg (by omega)] at hreply
      exact ⟨.tooManyDictionaryWords, hreply, rfl⟩
  · intro blocks hblocks hsize
    exact readEach_writeEach hreachable.consistent hagree hsize
      fun values hvalues => (hblocks values hvalues).imp_right (hfits values)

/-- Two slots that three values went through: the first value has made room for the third. -/
def wrappedTable : Dictionary := ((new 2).write [10, 20, 30]).2

/-- Two payloads in which the ring goes on turning, and one payload that is too long. -/
theorem wrappedTable_reads_back :
    wrappedTable.entries = [30, 20] ∧ wrappedTable.cursor = 1
      ∧ (wrappedTable.readEach (wrappedTable.writeEach [[10, 30], [20, -5, 20]]).1).1
          = [.ok [10, 30], .ok [20, -5, 20]]
      ∧ (wrappedTable.readEach (wrappedTable.writeEach [[10, 30], [20, -5, 20]]).1).2.Agrees
          (wrappedTable.writeEach [[10, 30], [20, -5, 20]]).2
      ∧ (wrappedTable.read (wrappedTable.write [10, 30]).1).1 = .ok [10, 30]
      ∧ FailsWith (· = .limit)
          (wrappedTable.read (wrappedTable.write (List.replicate (maxBlockItems + 1) 10)).1).1 := by
  have hreachable : Reachable 2 wrappedTable := .write [10, 20, 30] .new
  obtain ⟨hrange, hone, heach⟩ := hreachable.reads_back (.refl wrappedTable)
  have hfits (values : List Int64) (h : values.all fitsLiteral = true) : ∀ value ∈ values, InLiteralRange value :=
    fun value hvalue => (hrange value).mp (List.all_eq_true.mp h value hvalue)
  have hblocks : ∀ values ∈ [[10, 30], [20, -5, 20]],
      values.length ≤ maxBlockItems ∧ ∀ value ∈ values, InLiteralRange value :=
    List.forall_mem_cons.mpr ⟨⟨by decide, hfits _ (by decide)⟩,
      List.forall_mem_cons.mpr ⟨⟨by decide, hfits _ (by decide)⟩, nofun⟩⟩
  obtain ⟨hreplies, hagree⟩ := heach _ hblocks (by decide)
  obtain ⟨hreply, -⟩ := (hone [10, 30] (hfits _ (by decide)) (by decide)).1 (by decide)
  have hlongFits : ∀ value ∈ List.replicate (maxBlockItems + 1) 10, InLiteralRange value := by
    intro value hvalue
    rw [List.eq_of_mem_replicate hvalue]
    exact (hrange 10).mp (by decide)
  have hlongSize := hreachable.consistent.size_write_le (by decide) (List.replicate (maxBlockItems + 1) 10)
  have hlong := (hone _ hlongFits hlongSize).2 (by rw [List.length_replicate]; exact Nat.lt_succ_self _)
  exact ⟨by decide, by decide, hreplies, hagree, hreply, hlong⟩

end Dictionary
end SnapshotArchive

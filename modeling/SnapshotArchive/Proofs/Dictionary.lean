import SnapshotArchive.Payload.DictionaryWords
import SnapshotArchive.Proofs.Words

/-!
# `Proofs.Dictionary` — the recency dictionary and the words that refer to it

The index of a dictionary is maintained separately from its slots. `Dictionary.Consistent` says that
the two agree; it holds of a new dictionary and survives every insertion, whether the table still has
room or the oldest value has to go. On consistent dictionaries a writer and a reader that start out
equal stay equal, since each word makes both insert the same value or none.

## Contents
- `Dictionary.Consistent`, `Dictionary.consistent_new`, `Dictionary.Consistent.insert`,
  `Dictionary.Consistent.readUpTo`, `Dictionary.Consistent.write`.
- `Dictionary.readUpTo_write`: the words of a list are read back as far as there is room for them.
- `Dictionary.read_write`: where there is room for all, both sides end in one dictionary.
-/

namespace SnapshotArchive

theorem lookup_cons_key {κ ν : Type} [BEq κ] [LawfulBEq κ] [DecidableEq κ] (key other : κ) (value : ν)
    (entries : List (κ × ν)) :
    ((key, value) :: entries).lookup other = if other = key then some value else entries.lookup other := by
  by_cases heq : other = key
  · rw [heq, if_pos rfl, List.lookup_cons_self]
  · have hbeq : (other == key) = false := beq_eq_false_iff_ne.mpr heq
    rw [if_neg heq, List.lookup_cons, hbeq]

namespace Dictionary

/-! ## The index and the slots -/

/-- Where a value is indexed it sits, and where it sits it is indexed; the next slot to be overwritten
    is a slot of the full table. -/
structure Consistent (dictionary : Dictionary) : Prop where
  slot?_iff : ∀ value slot,
    dictionary.slot? value = some slot ↔ dictionary.value? slot = some value
  size_le : dictionary.size ≤ dictionary.capacity
  cursor_lt : dictionary.cursor < dictionary.capacity

theorem consistent_new (capacity : Nat) : (new capacity).Consistent := by
  refine ⟨?_, Nat.zero_le _, ?_⟩
  · intro value slot
    simp [slot?, value?, new]
  · have : 1 ≤ max capacity 1 := Nat.le_max_right _ _
    exact this

theorem getElem?_concat (entries : List Int64) (value : Int64) (slot : Nat) :
    (entries ++ [value])[slot]? = if entries.length = slot then some value else entries[slot]? := by
  by_cases hend : entries.length = slot
  · rw [if_pos hend, ← hend, List.getElem?_concat_length]
  · rw [if_neg hend]
    by_cases hlt : slot < entries.length
    · rw [List.getElem?_append_left hlt]
    · have hlength : (entries ++ [value]).length ≤ slot := by
        rw [List.length_append, List.length_singleton]
        omega
      rw [List.getElem?_eq_none hlength, List.getElem?_eq_none (by omega)]

/-- Dropping keys from an association list makes exactly these keys unknown. -/
theorem lookup_filter_key (keep : Int64 → Bool) (index : List (Int64 × Nat)) (value : Int64) :
    (index.filter fun (held, _) => keep held).lookup value
      = if keep value then index.lookup value else none := by
  induction index with
  | nil => simp
  | cons entry index ih =>
      obtain ⟨held, slot⟩ := entry
      rw [lookup_cons_key]
      by_cases hkeep : keep held = true
      · rw [List.filter_cons_of_pos (by exact hkeep), lookup_cons_key, ih]
        by_cases heq : value = held
        · rw [if_pos heq, if_pos heq, if_pos (heq ▸ hkeep)]
        · rw [if_neg heq, if_neg heq]
      · rw [List.filter_cons_of_neg (by exact hkeep), ih]
        by_cases heq : value = held
        · rw [if_neg (heq ▸ hkeep), if_neg (heq ▸ hkeep)]
        · rw [if_neg heq]

/-! ## Insertion -/

/-- A value that is present changes nothing. -/
theorem insert_of_slot? {dictionary : Dictionary} {value : Int64} {slot : Nat}
    (h : dictionary.slot? value = some slot) : dictionary.insert value = dictionary := by
  rw [insert, h]; rfl

variable {dictionary : Dictionary}

theorem insert_of_room {value : Int64} (habsent : dictionary.slot? value = none)
    (hroom : dictionary.size < dictionary.capacity) :
    dictionary.insert value =
      { dictionary with
        entries := dictionary.entries ++ [value]
        index := (value, dictionary.size) :: dictionary.index } := by
  rw [insert, habsent, if_neg (by simp), if_pos hroom]

theorem insert_of_full {value : Int64} (habsent : dictionary.slot? value = none)
    (hfull : ¬dictionary.size < dictionary.capacity) :
    dictionary.insert value =
      { dictionary with
        entries := dictionary.entries.set dictionary.cursor value
        index := (value, dictionary.cursor) :: dictionary.index.filter fun (held, _) =>
          some held ≠ dictionary.value? dictionary.cursor
        cursor := (dictionary.cursor + 1) % dictionary.capacity } := by
  rw [insert, habsent, if_neg (by simp), if_neg hfull]

/-- Where there is room, the value goes into a new slot. -/
theorem slot?_insert_of_room {value : Int64} (habsent : dictionary.slot? value = none)
    (hroom : dictionary.size < dictionary.capacity) (held : Int64) :
    (dictionary.insert value).slot? held =
      if held = value then some dictionary.size else dictionary.slot? held := by
  rw [insert_of_room habsent hroom]
  exact lookup_cons_key value held dictionary.size dictionary.index

/-- In a full table the value goes into the slot at the cursor, and the value that was there is forgotten. -/
theorem slot?_insert_of_full {value : Int64} (habsent : dictionary.slot? value = none)
    (hfull : ¬dictionary.size < dictionary.capacity) (held : Int64) :
    (dictionary.insert value).slot? held =
      if held = value then some dictionary.cursor
      else if some held ≠ dictionary.value? dictionary.cursor then dictionary.slot? held else none := by
  rw [insert_of_full habsent hfull]
  show List.lookup held ((value, dictionary.cursor) :: dictionary.index.filter fun (held, _) =>
      some held ≠ dictionary.value? dictionary.cursor) = _
  rw [lookup_cons_key, lookup_filter_key fun held => some held ≠ dictionary.value? dictionary.cursor]
  simp only [decide_eq_true_eq]
  rfl

/-- Two slots do not hold the same value. -/
theorem Consistent.slot_unique (h : dictionary.Consistent) {value : Int64} {slot other : Nat}
    (hslot : dictionary.value? slot = some value) (hother : dictionary.value? other = some value) :
    slot = other := by
  rw [← h.slot?_iff] at hslot hother
  exact Option.some.inj (hslot.symm.trans hother)

/-- **Writing an absent value into a slot keeps index and slots in agreement**, if the index forgets
    whatever the slot held before. -/
theorem Consistent.slot?_iff_put (h : dictionary.Consistent) {value : Int64}
    (habsent : dictionary.slot? value = none) (target : Nat) (other : Int64) (slot : Nat) :
    (if other = value then some target
      else if some other ≠ dictionary.value? target then dictionary.slot? other else none) = some slot
      ↔ (if target = slot then some value else dictionary.value? slot) = some other := by
  by_cases hvalue : other = value
  · subst hvalue
    rw [if_pos rfl]
    by_cases hslot : target = slot
    · rw [if_pos hslot, hslot]
      exact ⟨fun _ => rfl, fun _ => rfl⟩
    · -- any other slot: it does not hold the value, which was absent
      rw [if_neg hslot, ← h.slot?_iff, habsent]
      constructor
      · intro heq
        exact absurd (Option.some.inj heq) hslot
      · intro heq
        cases heq
  · rw [if_neg hvalue]
    by_cases hslot : target = slot
    · -- the slot itself: the index no longer leads to it from any other value
      subst hslot
      rw [if_pos rfl]
      constructor
      · intro hother
        by_cases hkept : some other ≠ dictionary.value? target
        · rw [if_pos hkept, h.slot?_iff] at hother
          exact absurd hother.symm hkept
        · rw [if_neg hkept] at hother
          cases hother
      · intro hother
        exact absurd (Option.some.inj hother).symm hvalue
    · rw [if_neg hslot]
      by_cases hkept : some other ≠ dictionary.value? target
      · rw [if_pos hkept, h.slot?_iff]
      · -- the value that the slot held: it was in no other slot
        have hevicted : dictionary.value? target = some other := (Decidable.not_not.mp hkept).symm
        rw [if_neg hkept]
        constructor
        · intro hother
          cases hother
        · intro hother
          exact absurd (h.slot_unique hevicted hother) hslot

/-- **Insertion keeps a dictionary consistent.** -/
theorem Consistent.insert (h : dictionary.Consistent) (value : Int64) :
    (dictionary.insert value).Consistent := by
  cases hslot : dictionary.slot? value with
  | some slot => rw [insert_of_slot? hslot]; exact h
  | none =>
      by_cases hroom : dictionary.size < dictionary.capacity
      · have hbeyond : dictionary.value? dictionary.size = none :=
          List.getElem?_eq_none (Nat.le_refl _)
        refine ⟨?_, ?_, ?_⟩
        · -- a new slot held nothing, so that the index has nothing to forget
          intro other slot
          have hput := h.slot?_iff_put hslot dictionary.size other slot
          rw [hbeyond, if_pos (Option.some_ne_none other)] at hput
          rw [slot?_insert_of_room hslot hroom, insert_of_room hslot hroom]
          show _ ↔ (dictionary.entries ++ [value])[slot]? = some other
          rw [getElem?_concat]
          exact hput
        · rw [insert_of_room hslot hroom]
          show (dictionary.entries ++ [value]).length ≤ dictionary.capacity
          rw [List.length_append, List.length_singleton]
          exact hroom
        · rw [insert_of_room hslot hroom]
          exact h.cursor_lt
      · have hcursor : dictionary.cursor < dictionary.entries.length :=
          Nat.lt_of_lt_of_le h.cursor_lt (Nat.not_lt.mp hroom)
        refine ⟨?_, ?_, ?_⟩
        · intro other slot
          have hput := h.slot?_iff_put hslot dictionary.cursor other slot
          rw [slot?_insert_of_full hslot hroom, insert_of_full hslot hroom]
          show _ ↔ (dictionary.entries.set dictionary.cursor value)[slot]? = some other
          rw [List.getElem?_set, if_pos hcursor]
          exact hput
        · rw [insert_of_full hslot hroom]
          show (dictionary.entries.set dictionary.cursor value).length ≤ dictionary.capacity
          rw [List.length_set]
          exact h.size_le
        · rw [insert_of_full hslot hroom]
          exact Nat.mod_lt _ (Nat.lt_of_le_of_lt (Nat.zero_le _) h.cursor_lt)

theorem capacity_insert (value : Int64) : (dictionary.insert value).capacity = dictionary.capacity := by
  unfold insert
  split
  · rfl
  · split <;> rfl

/-- A table does not shrink. -/
theorem size_le_insert (dictionary : Dictionary) (value : Int64) :
    dictionary.size ≤ (dictionary.insert value).size := by
  unfold insert
  split
  · exact Nat.le_refl _
  · split
    · show dictionary.entries.length ≤ (dictionary.entries ++ [value]).length
      rw [List.length_append]
      exact Nat.le_add_right _ _
    · exact Nat.le_of_eq List.length_set.symm

/-! ## Words -/

theorem fitsLiteral_iff (value : Int64) : fitsLiteral value = true ↔ (zigzag value).toNat < 2 ^ 63 := by
  have hshift : (zigzag value >>> 63).toNat = (zigzag value).toNat / 2 ^ 63 := by
    rw [UInt64.toNat_shiftRight, Nat.shiftRight_eq_div_pow]
    rfl
  have hzero : (0 : UInt64).toNat = 0 := rfl
  unfold fitsLiteral
  rw [beq_iff_eq, ← UInt64.toNat_inj, hshift, hzero, Nat.div_eq_zero_iff]
  omega

theorem toNat_shiftLeft_one {word : UInt64} (h : word.toNat < 2 ^ 63) :
    (word <<< 1).toNat = 2 * word.toNat := by
  have hone : (1 : UInt64).toNat % 64 = 1 := rfl
  rw [UInt64.toNat_shiftLeft, hone, Nat.shiftLeft_eq]
  omega

/-- The number of a word that refers to a slot is odd. -/
theorem toNat_reference {slot : Nat} (h : slot < 2 ^ 63) :
    ((UInt64.ofNat slot <<< 1) ||| 1).toNat = 2 * slot + 1 := by
  have hslot : (UInt64.ofNat slot).toNat = slot := by rw [UInt64.toNat_ofNat']; omega
  have hone : (1 : UInt64).toNat = 1 := rfl
  have hor : 2 * slot + 1 = 2 * slot ||| 1 :=
    Nat.two_pow_add_eq_or_of_lt (i := 1) (b := 1) (by decide) slot
  rw [UInt64.toNat_or, toNat_shiftLeft_one (by omega), hslot, hone, hor]

theorem readUpTo_nil (room : Nat) : readUpTo room [] dictionary = (.ok [], dictionary) := by
  cases room <;> rfl

/-- A word that refers to the slot of a value is read as that value. -/
theorem readUpTo_reference {value : Int64} {slot : Nat} (hslot : slot < 2 ^ 63)
    (hvalue : dictionary.value? slot = some value) (room : Nat) (rest : Bytes) :
    readUpTo (room + 1) (Varint.write ((UInt64.ofNat slot <<< 1) ||| 1) ++ rest) dictionary =
      ((readUpTo room rest dictionary).1.map (value :: ·), (readUpTo room rest dictionary).2) := by
  have hnat := toNat_reference hslot
  have hodd := (and_one_eq_one_iff ((UInt64.ofNat slot <<< 1) ||| 1)).mpr (by omega)
  have hhalf : (((UInt64.ofNat slot <<< 1) ||| 1) >>> 1).toNat = slot := by
    rw [toNat_shiftRight_one, hnat]
    omega
  obtain ⟨byte, bytes, hcons, hread⟩ := Varint.exists_cons_write ((UInt64.ofNat slot <<< 1) ||| 1) rest
  rw [hcons, readUpTo]
  simp only [hread, hodd, if_true, hhalf, hvalue]

/-- A word that spells a value is read as that value, which is then remembered. -/
theorem readUpTo_literal {value : Int64} (hfits : fitsLiteral value = true) (room : Nat)
    (rest : Bytes) :
    readUpTo (room + 1) (Varint.write (zigzag value <<< 1) ++ rest) dictionary =
      ((readUpTo room rest (dictionary.insert value)).1.map (value :: ·),
        (readUpTo room rest (dictionary.insert value)).2) := by
  have hnat := toNat_shiftLeft_one ((fitsLiteral_iff value).mp hfits)
  have heven : ¬zigzag value <<< 1 &&& 1 = 1 := by
    rw [and_one_eq_one_iff]
    omega
  have hhalf : zigzag value <<< 1 >>> 1 = zigzag value := by
    apply UInt64.toNat_inj.mp
    rw [toNat_shiftRight_one, hnat]
    omega
  obtain ⟨byte, bytes, hcons, hread⟩ := Varint.exists_cons_write (zigzag value <<< 1) rest
  rw [hcons, readUpTo]
  simp only [hread, heven, if_false, hhalf, unzigzag_zigzag]

/-- **Reading keeps a dictionary consistent**, whether it succeeds or not. -/
theorem Consistent.readUpTo (h : dictionary.Consistent) (room : Nat) (bytes : Bytes) :
    (Dictionary.readUpTo room bytes dictionary).2.Consistent := by
  induction room generalizing bytes dictionary with
  | zero => cases bytes <;> exact h
  | succ room ih =>
      cases bytes with
      | nil => exact h
      | cons byte bytes =>
          unfold Dictionary.readUpTo
          cases hread : Varint.read (byte :: bytes) with
          | mk answer rest =>
              cases answer with
              | error fault => exact h
              | ok word =>
                  simp only
                  split
                  · split
                    · exact h
                    · exact ih h rest
                  · exact ih (h.insert _) rest

theorem write_of_slot? {value : Int64} {slot : Nat} (h : dictionary.slot? value = some slot)
    (values : List Int64) :
    dictionary.write (value :: values) =
      (Varint.write ((UInt64.ofNat slot <<< 1) ||| 1) ++ (dictionary.write values).1,
        (dictionary.write values).2) := by
  rw [write, word, h]

theorem write_of_absent {value : Int64} (h : dictionary.slot? value = none) (values : List Int64) :
    dictionary.write (value :: values) =
      (Varint.write (zigzag value <<< 1) ++ ((dictionary.insert value).write values).1,
        ((dictionary.insert value).write values).2) := by
  rw [write, word, h]

/-- Writing keeps the dictionary consistent and its capacity as it was. -/
theorem Consistent.write (h : dictionary.Consistent) (values : List Int64) :
    (dictionary.write values).2.Consistent
      ∧ (dictionary.write values).2.capacity = dictionary.capacity := by
  induction values generalizing dictionary with
  | nil => exact ⟨h, rfl⟩
  | cons value values ih =>
      cases hslot : dictionary.slot? value with
      | some slot =>
          rw [write_of_slot? hslot]
          exact ih h
      | none =>
          have hcapacity : (dictionary.insert value).capacity = dictionary.capacity :=
            capacity_insert value
          rw [write_of_absent hslot, ← hcapacity]
          exact ih (h.insert value)

theorem size_le_write (dictionary : Dictionary) (values : List Int64) :
    dictionary.size ≤ (dictionary.write values).2.size := by
  induction values generalizing dictionary with
  | nil => exact Nat.le_refl _
  | cons value values ih =>
      cases hslot : dictionary.slot? value with
      | some slot =>
          rw [write_of_slot? hslot]
          exact ih dictionary
      | none =>
          rw [write_of_absent hslot]
          exact Nat.le_trans (dictionary.size_le_insert value) (ih _)

/-- A word is left, and there is no room for it. -/
theorem readUpTo_write_of_no_room (value : Int64) (values : List Int64) :
    readUpTo 0 (dictionary.write (value :: values)).1 dictionary = (.error .tooManyDictionaryWords, dictionary) := by
  have hwrite : (dictionary.write (value :: values)).1 =
      Varint.write (dictionary.word value).1 ++ ((dictionary.word value).2.write values).1 := rfl
  obtain ⟨byte, bytes, hcons, -⟩ :=
    Varint.exists_cons_write (dictionary.word value).1 ((dictionary.word value).2.write values).1
  rw [hwrite, hcons]
  rfl

/-- **As many words as there is room for are read back**, and they leave the reader with the dictionary that the
    writer had after them. Slots have to fit a word, so the writer must not end with more than `2 ^ 63` of them. -/
theorem readUpTo_write (h : dictionary.Consistent) {values : List Int64}
    (hsize : (dictionary.write values).2.size ≤ 2 ^ 63) (hfits : ∀ value ∈ values, fitsLiteral value = true)
    (room : Nat) :
    readUpTo room (dictionary.write values).1 dictionary =
      (if values.length ≤ room then .ok values else .error .tooManyDictionaryWords,
        (dictionary.write (values.take room)).2) := by
  induction values generalizing dictionary room with
  | nil =>
      have hroom : ([] : List Int64).length ≤ room := Nat.zero_le room
      rw [List.take_nil, if_pos hroom]
      exact readUpTo_nil room
  | cons value values ih =>
      have hfits' : ∀ other ∈ values, fitsLiteral other = true :=
        fun other hother => hfits other (List.mem_cons_of_mem _ hother)
      cases room with
      | zero =>
          have hroom : ¬(value :: values).length ≤ 0 := Nat.not_succ_le_zero _
          rw [if_neg hroom, List.take_zero]
          exact readUpTo_write_of_no_room value values
      | succ room =>
          have hroom : (value :: values).length ≤ room + 1 ↔ values.length ≤ room := Nat.succ_le_succ_iff
          rw [List.take_succ_cons]
          cases hslot : dictionary.slot? value with
          | some slot =>
              have hvalue := (h.slot?_iff value slot).mp hslot
              rw [write_of_slot? hslot] at hsize
              have hlt : slot < 2 ^ 63 :=
                calc slot < dictionary.size := (List.getElem?_eq_some_iff.mp hvalue).1
                  _ ≤ (dictionary.write values).2.size := dictionary.size_le_write values
                  _ ≤ 2 ^ 63 := hsize
              rw [write_of_slot? hslot, write_of_slot? hslot, readUpTo_reference hlt hvalue, ih h hsize hfits']
              simp only [hroom]
              split <;> rfl
          | none =>
              -- the writer has inserted the value, and the reader inserts it too
              rw [write_of_absent hslot] at hsize
              rw [write_of_absent hslot, write_of_absent hslot,
                readUpTo_literal (hfits value List.mem_cons_self), ih (h.insert value) hsize hfits']
              simp only [hroom]
              split <;> rfl

/-- **A dictionary payload is read back, and both sides end in the same dictionary.** -/
theorem read_write (h : dictionary.Consistent) {values : List Int64}
    (hsize : (dictionary.write values).2.size ≤ 2 ^ 63) (hfits : ∀ value ∈ values, fitsLiteral value = true)
    (hroom : values.length ≤ maxBlockItems) :
    dictionary.read (dictionary.write values).1 = (.ok values, (dictionary.write values).2) := by
  unfold read
  rw [readUpTo_write h hsize hfits, if_pos hroom, List.take_of_length_le hroom]

/-- A table of at most `2 ^ 63` slots is not filled with more. -/
theorem Consistent.size_write_le (h : dictionary.Consistent) (hcapacity : dictionary.capacity ≤ 2 ^ 63)
    (values : List Int64) : (dictionary.write values).2.size ≤ 2 ^ 63 := by
  obtain ⟨hconsistent, hkept⟩ := h.write values
  have hle := hconsistent.size_le
  rw [hkept] at hle
  exact Nat.le_trans hle hcapacity

theorem length_write_le (dictionary : Dictionary) (values : List Int64) :
    (dictionary.write values).1.length ≤ Varint.maxLength * values.length := by
  induction values generalizing dictionary with
  | nil => exact Nat.zero_le _
  | cons value values ih =>
      have hword := (Varint.length_write (dictionary.word value).1).2
      have hrest := ih (dictionary.word value).2
      rw [Dictionary.write, List.length_append, List.length_cons, Nat.mul_succ]
      omega

end Dictionary
end SnapshotArchive

import Mathlib.Algebra.BigOperators.Ring.Finset
import Mathlib.Order.Bounds.Basic
import SnapshotArchive.Proofs.Groups
import SnapshotArchive.Proofs.InPlacePayloads

/-!
# `Proofs.WordReading` — where a word is found, and where a reader that finds none gives up

A word ends with the first byte whose high bit is clear. It is read if that byte is one of the next ten and the number
that the bytes up to it spell fits 64 bits. Else the reader has taken ten bytes, or all there were: no group before the
tenth can hold too much, and the tenth has room for one bit.

## Contents
- **Numbers.** `ofGroups_eq_sum`, `ofGroups_lt`; `isLeast_length_write`.
- **The last byte.** `closed_take_iff`, `read_eq_ok_iff_findIdx?`.
- **Positions.** `readAt`; `readAt_eq_ok_iff`, `readAt_eq_error`, `readWord_eq_readAt`.
- **The result.** `reading_exact`.
-/

namespace SnapshotArchive

namespace Varint

/-! ## Numbers -/

theorem ofGroups_eq_sum (bytes : Bytes) :
    ofGroups bytes = ∑ i ∈ Finset.range bytes.length, (bytes.getD i 0).toNat % 128 * 128 ^ i := by
  induction bytes with
  | nil => rfl
  | cons byte rest ih =>
      rw [ofGroups, ih, List.length_cons, Finset.sum_range_succ', Finset.mul_sum, Nat.add_comm]
      congr 1
      · apply Finset.sum_congr rfl
        intro i _
        rw [List.getD_cons_succ, Nat.pow_succ', Nat.mul_left_comm]
      · exact (Nat.mul_one _).symm

theorem ofGroups_lt (bytes : Bytes) : ofGroups bytes < 128 ^ bytes.length := by
  induction bytes with
  | nil => exact Nat.one_pos
  | cons byte rest ih =>
      have hlow : byte.toNat % 128 < 128 := Nat.mod_lt _ (by decide)
      rw [ofGroups, List.length_cons, Nat.pow_succ']
      omega

/-- **A word is written in as few groups as hold it.** -/
theorem isLeast_length_write (word : UInt64) :
    IsLeast {groups | 1 ≤ groups ∧ word.toNat < 128 ^ groups} (write word).length := by
  constructor
  · have hlt := ofGroups_lt (write word)
    rw [(spells_write word).number] at hlt
    exact ⟨(length_write word).1, hlt⟩
  · rintro groups ⟨hsome, hholds⟩
    obtain ⟨others, rfl⟩ : ∃ others, groups = others + 1 := ⟨groups - 1, by omega⟩
    exact (length_writeNat_le hholds).2

/-! ## The last byte -/

/-- Bytes are the groups of one word if the last of them is the first whose high bit is clear. -/
theorem closed_take_iff {bytes : Bytes} {last : Nat} (h : last < bytes.length) :
    Closed (bytes.take (last + 1)) ↔ bytes.findIdx? (·.toNat < 128) = some last := by
  have hsplit : bytes.take (last + 1) = bytes.take last ++ [bytes[last]] := List.take_succ_eq_append_getElem h
  rw [List.findIdx?_eq_some_iff_getElem]
  constructor
  · rintro ⟨marked, final, heq, hmarked, hfinal⟩
    rw [hsplit] at heq
    obtain ⟨rfl, hlast⟩ := List.append_inj' heq rfl
    obtain rfl := List.singleton_inj.mp hlast
    refine ⟨h, decide_eq_true hfinal, fun i hi => ?_⟩
    have hmem : bytes[i] ∈ bytes.take last := List.mem_take_iff_getElem.mpr ⟨i, by omega, rfl⟩
    have hge := hmarked _ hmem
    rw [decide_eq_true_eq]
    omega
  · rintro ⟨_, hfinal, hmarked⟩
    refine ⟨bytes.take last, bytes[last], hsplit, ?_, of_decide_eq_true hfinal⟩
    intro byte hmem
    obtain ⟨i, hi, rfl⟩ := List.mem_take_iff_getElem.mp hmem
    have hnot := hmarked i (by omega)
    rw [decide_eq_true_eq] at hnot
    omega

/-- The number that the bytes up to one of them spell. -/
def numberUpTo (bytes : Bytes) (last : Nat) : Nat :=
  ∑ i ∈ Finset.range (last + 1), (bytes.getD i 0).toNat % 128 * 128 ^ i

theorem ofGroups_take {bytes : Bytes} {last : Nat} (h : last < bytes.length) :
    ofGroups (bytes.take (last + 1)) = numberUpTo bytes last := by
  have hlength : (bytes.take (last + 1)).length = last + 1 := by
    rw [List.length_take]
    omega
  rw [ofGroups_eq_sum, hlength, numberUpTo]
  apply Finset.sum_congr rfl
  intro i hi
  rw [List.getD_eq_getElem?_getD, List.getElem?_take_of_lt (Finset.mem_range.mp hi), List.getD_eq_getElem?_getD]

/-- **A word is read if it ends within ten bytes and fits.** -/
theorem read_eq_ok_iff_findIdx? {word : UInt64} {bytes rest : Bytes} :
    read bytes = (.ok word, rest) ↔
      ∃ last < maxLength, bytes.findIdx? (·.toNat < 128) = some last ∧ numberUpTo bytes last = word.toNat ∧
        rest = bytes.drop (last + 1) := by
  rw [read_eq_ok_iff]
  constructor
  · rintro ⟨front, rfl, hspells⟩
    have hpos := hspells.closed.length_pos
    have hroom := hspells.length_le
    obtain ⟨last, hlength⟩ : ∃ last, front.length = last + 1 := ⟨front.length - 1, by omega⟩
    have hlast : last < (front ++ rest).length := by
      rw [List.length_append]
      omega
    have hfront : (front ++ rest).take (last + 1) = front := by rw [← hlength, List.take_left]
    refine ⟨last, by omega, ?_, ?_, ?_⟩
    · rw [← closed_take_iff hlast, hfront]
      exact hspells.closed
    · rw [← ofGroups_take hlast, hfront]
      exact hspells.number
    · rw [← hlength, List.drop_left]
  · rintro ⟨last, hroom, hfirst, hnumber, rfl⟩
    obtain ⟨hlast, -⟩ := List.findIdx?_eq_some_iff_getElem.mp hfirst
    refine ⟨bytes.take (last + 1), (List.take_append_drop _ _).symm, (closed_take_iff hlast).mpr hfirst, ?_, ?_,
      word.toNat_lt⟩
    · rw [List.length_take]
      omega
    · rw [ofGroups_take hlast, hnumber]

/-! ## Positions -/

/-- Read a word at a position. The position afterwards is behind the bytes that were taken, whether or not they are a
    word. -/
def readAt (data : Bytes) (pos : Nat) : Except Fault UInt64 × Nat :=
  ((read (data.drop pos)).1, pos + ((data.drop pos).length - (read (data.drop pos)).2.length))

section Positions

variable {data : Bytes} {pos next : Nat}

/-- The position afterwards is that of the rest. -/
theorem readAt_eq_iff (hpos : pos ≤ data.length) {answer : Except Fault UInt64} :
    readAt data pos = (answer, next) ↔ read (data.drop pos) = (answer, data.drop next) ∧ next ≤ data.length := by
  have hlength : (data.drop pos).length = data.length - pos := List.length_drop
  unfold readAt
  cases hread : read (data.drop pos) with
  | mk found rest =>
      have hrest := drop_of_read hread
      have hsuffix := (read_suffix (data.drop pos)).length_le
      rw [hread, hlength] at hsuffix
      have hplace : pos + (data.length - pos - rest.length) = data.length - rest.length := by
        simp only at hsuffix
        omega
      simp only [hlength, hplace]
      constructor
      · intro h
        cases h
        exact ⟨by rw [hrest], Nat.sub_le _ _⟩
      · rintro ⟨h, hnext⟩
        cases h
        rw [List.length_drop, Nat.sub_sub_self hnext]

theorem eq_of_drop_eq {next other : Nat} (hnext : next ≤ data.length) (hother : other ≤ data.length)
    (h : data.drop next = data.drop other) : next = other := by
  have hlength := congrArg List.length h
  rw [List.length_drop, List.length_drop] at hlength
  omega

theorem readAt_eq_ok_iff (hpos : pos ≤ data.length) {word : UInt64} :
    readAt data pos = (.ok word, next) ↔
      ∃ last < maxLength, (data.drop pos).findIdx? (·.toNat < 128) = some last ∧
        numberUpTo (data.drop pos) last = word.toNat ∧ next = pos + last + 1 := by
  rw [readAt_eq_iff hpos, read_eq_ok_iff_findIdx?]
  constructor
  · rintro ⟨⟨last, hroom, hfirst, hnumber, hrest⟩, hnext⟩
    obtain ⟨hlast, -⟩ := List.findIdx?_eq_some_iff_getElem.mp hfirst
    rw [List.length_drop] at hlast
    rw [List.drop_drop] at hrest
    exact ⟨last, hroom, hfirst, hnumber, eq_of_drop_eq hnext (by omega) hrest⟩
  · rintro ⟨last, hroom, hfirst, hnumber, rfl⟩
    obtain ⟨hlast, -⟩ := List.findIdx?_eq_some_iff_getElem.mp hfirst
    rw [List.length_drop] at hlast
    exact ⟨⟨last, hroom, hfirst, hnumber, by rw [List.drop_drop, Nat.add_assoc]⟩, by omega⟩

/-- **Where a reader gives up**, and why. -/
theorem readAt_eq_error (hpos : pos ≤ data.length) {fault : Fault} (h : readAt data pos = (.error fault, next)) :
    next = min (pos + maxLength) data.length ∧ fault = faultAt maxLength (data.drop pos) := by
  obtain ⟨hread, hnext⟩ := (readAt_eq_iff hpos).mp h
  obtain ⟨hrest, hfault⟩ := read_eq_error hread
  refine ⟨?_, hfault⟩
  have hlength := congrArg List.length hrest
  rw [List.length_drop, List.length_drop, List.length_drop] at hlength
  omega

/-- What is written is read back at its position. -/
theorem readAt_of_written {word : UInt64} {rest : Bytes} (h : data.drop pos = write word ++ rest) :
    readAt data pos = (.ok word, pos + (write word).length) := by
  unfold readAt
  rw [h, read_write, List.length_append, Nat.add_sub_cancel]

/-- **A word is read in place**, with no bit shifted out of it, by whoever keeps positions. -/
theorem readWord_eq_readAt (hpos : pos ≤ data.length) :
    InPlace.readWord data pos
      = Guarded.safely ((readAt data pos).1.map fun word => (word, (readAt data pos).2)) := by
  rw [InPlace.readWord_eq]
  cases hread : readAt data pos with
  | mk answer next =>
      obtain ⟨hrest, hnext⟩ := (readAt_eq_iff hpos).mp hread
      rw [hrest]
      cases answer with
      | error fault => rfl
      | ok word =>
          have hplace : data.length - (data.drop next).length = next := by
            rw [List.length_drop, Nat.sub_sub_self hnext]
          show Guarded.safely (.ok (word, data.length - (data.drop next).length)) = _
          rw [hplace]
          rfl

end Positions

/-! ## The result -/

/-- **Reading a word is exact.** What is written for a word is read back at its position, whatever is in front of it
    and behind it, and takes from one to ten bytes, the least number of groups of seven bits that hold the word. On any
    bytes, a word is read if one of the next ten bytes has its high bit clear and the sum of the groups up to the first
    such byte fits 64 bits; then the word is that sum, and the position afterwards is behind that byte. If no word is
    read the fault is one of integrity. If fewer than ten bytes were ahead all of them have been taken, and there were
    too few; else ten have been taken, and either the tenth holds more than one bit or there is no end in sight. The
    position is that of the bytes which are left to read, and a reader that works in place, in words of 64 bits, has the
    same answer and position and loses no bit. -/
theorem reading_exact (data : Bytes) (pos : Nat) (hpos : pos ≤ data.length) :
    let ahead : Bytes := data.drop pos
    let number (last : Nat) : Nat := ∑ i ∈ Finset.range (last + 1), (ahead.getD i 0).toNat % 128 * 128 ^ i
    (∀ (word : UInt64) (rest : Bytes), ahead = write word ++ rest →
      readAt data pos = (.ok word, pos + (write word).length) ∧ (write word).length ≤ 10 ∧
        IsLeast {groups | 1 ≤ groups ∧ word.toNat < 128 ^ groups} (write word).length) ∧
    (∀ (word : UInt64) (next : Nat), readAt data pos = (.ok word, next) ↔
      ∃ last < 10, ahead.findIdx? (·.toNat < 128) = some last ∧ number last < 2 ^ 64 ∧
        word = UInt64.ofNat (number last) ∧ next = pos + last + 1) ∧
    (∀ (fault : Fault) (next : Nat), readAt data pos = (.error fault, next) →
      fault.kind = .integrity ∧
        if data.length < pos + 10 then next = data.length ∧ fault = .varintPastEnd
        else next = pos + 10 ∧
          fault = if 1 < (ahead.getD 9 0).toNat % 128 then .varintOverflow else .varintTooLong) ∧
    (∀ (answer : Except Fault UInt64) (next : Nat), readAt data pos = (answer, next) →
      read ahead = (answer, data.drop next) ∧ next ≤ data.length ∧
        InPlace.readWord data pos = Guarded.safely (answer.map fun word => (word, next))) := by
  intro ahead number
  refine ⟨?_, ?_, ?_, ?_⟩
  · intro word rest hwritten
    exact ⟨readAt_of_written hwritten, (length_write word).2, isLeast_length_write word⟩
  · intro word next
    rw [readAt_eq_ok_iff hpos]
    apply exists_congr
    intro last
    have hword : number last = word.toNat ↔ number last < 2 ^ 64 ∧ word = UInt64.ofNat (number last) := by
      constructor
      · intro h
        rw [h]
        exact ⟨word.toNat_lt, UInt64.ofNat_toNat.symm⟩
      · rintro ⟨hfits, rfl⟩
        rw [UInt64.toNat_ofNat', Nat.mod_eq_of_lt hfits]
    show last < 10 ∧ _ ∧ number last = word.toNat ∧ _ ↔ _
    rw [hword, and_assoc]
  · intro fault next hread
    obtain ⟨rfl, rfl⟩ := readAt_eq_error hpos hread
    have hahead : ahead.length < maxLength ↔ data.length < pos + 10 := by
      rw [List.length_drop, maxLength]
      omega
    refine ⟨kind_faultAt _ _, ?_⟩
    unfold faultAt
    by_cases hshort : data.length < pos + 10
    · rw [if_pos hshort, if_pos (hahead.mpr hshort)]
      exact ⟨Nat.min_eq_right (Nat.le_of_lt hshort), rfl⟩
    · rw [if_neg hshort, if_neg (mt hahead.mp hshort)]
      exact ⟨Nat.min_eq_left (Nat.not_lt.mp hshort), if_congr (and_iff_right (by decide)) rfl rfl⟩
  · intro answer next hread
    obtain ⟨hrest, hnext⟩ := (readAt_eq_iff hpos).mp hread
    have hplace := readWord_eq_readAt hpos
    rw [hread] at hplace
    exact ⟨hrest, hnext, hplace⟩

/-- A word that is written behind another byte; the greatest word, whose tenth group is one bit; and the same bytes with
    one bit more. -/
theorem reading_exact_tenthByte :
    let written : Bytes := 0x2A :: (write 300 ++ [0xFF])
    let greatest : Bytes := 0x2A :: List.replicate 9 0xFF ++ [0x01, 0x07]
    let overfull : Bytes := 0x2A :: List.replicate 9 0xFF ++ [0x02, 0x07]
    (1 ≤ written.length ∧ readAt written 1 = (.ok 300, 1 + (write 300).length)) ∧
      (1 ≤ greatest.length ∧ readAt greatest 1 = (.ok 0xFFFFFFFFFFFFFFFF, 11)) ∧
      1 ≤ overfull.length ∧ readAt overfull 1 = (.error .varintOverflow, 11) ∧
        Fault.varintOverflow.kind = .integrity := by
  intro written greatest overfull
  have hwritten : 1 ≤ written.length := Nat.succ_pos _
  have hgreatest : 1 ≤ greatest.length := by decide
  have hoverfull : 1 ≤ overfull.length := by decide
  have hfault : readAt overfull 1 = (.error .varintOverflow, 11) := rfl
  refine ⟨⟨hwritten, ?_⟩, ⟨hgreatest, ?_⟩, hoverfull, hfault, ?_⟩
  · exact ((reading_exact written 1 hwritten).1 300 [0xFF] rfl).1
  · exact ((reading_exact greatest 1 hgreatest).2.1 _ _).mpr ⟨9, by decide, by decide, by decide, by decide, rfl⟩
  · exact ((reading_exact overfull 1 hoverfull).2.2.1 _ _ hfault).1

end Varint

end SnapshotArchive

import SnapshotArchive.Proofs.Words

/-!
# `Proofs.Groups` — which bytes spell a word

Writing has one form for a word, the shortest. Reading takes more: the groups may go on with zero bits, as long as
there are at most ten of them and the number stays within 64 bits. `Varint.Spells` says so of whole byte strings,
without reading them from left to right, and the reader takes off the front what is a spelling and nothing else. Where
there is none it gives up after ten bytes or at the end of the bytes (`Varint.read_eq_error`).

## Contents
- **Spellings.** `Varint.ofGroups`, `Varint.Closed`, `Varint.Spells`.
- **Reading.** `Varint.readGroups_eq_ok_iff`, `Varint.read_eq_ok_iff`; `Varint.Spells.append_inj`, a byte string begins
  with one word at most; `Varint.spells_write`.
- **Faults.** `Varint.faultAt`, `Varint.read_eq_error`; `Varint.read_suffix`.
-/

namespace SnapshotArchive

namespace Varint

/-! ## Spellings -/

/-- The number whose base-128 digits, lowest first, are the low seven bits of the bytes. -/
def ofGroups : Bytes → Nat
  | [] => 0
  | byte :: rest => byte.toNat % 128 + 128 * ofGroups rest

/-- The bytes are groups of one word: all but the last are marked by the high bit. -/
def Closed (bytes : Bytes) : Prop :=
  ∃ marked last, bytes = marked ++ [last] ∧ (∀ byte ∈ marked, 128 ≤ byte.toNat) ∧ last.toNat < 128

theorem not_closed_nil : ¬Closed [] := by
  rintro ⟨marked, last, h, -⟩
  simp at h

theorem closed_cons_of_lt {byte : UInt8} (h : byte.toNat < 128) {rest : Bytes} :
    Closed (byte :: rest) ↔ rest = [] := by
  constructor
  · rintro ⟨marked, last, heq, hmarked, -⟩
    cases marked with
    | nil => exact (List.cons.inj heq).2
    | cons first marked =>
        have hfirst := hmarked first List.mem_cons_self
        rw [← (List.cons.inj heq).1] at hfirst
        omega
  · rintro rfl
    exact ⟨[], byte, rfl, by simp, h⟩

theorem closed_cons_of_ge {byte : UInt8} (h : 128 ≤ byte.toNat) {rest : Bytes} :
    Closed (byte :: rest) ↔ Closed rest := by
  constructor
  · rintro ⟨marked, last, heq, hmarked, hlast⟩
    cases marked with
    | nil =>
        rw [← (List.cons.inj heq).1] at hlast
        omega
    | cons first marked =>
        obtain ⟨-, hmarked⟩ := List.forall_mem_cons.mp hmarked
        exact ⟨marked, last, (List.cons.inj heq).2, hmarked, hlast⟩
  · rintro ⟨marked, last, rfl, hmarked, hlast⟩
    exact ⟨byte :: marked, last, rfl, List.forall_mem_cons.mpr ⟨h, hmarked⟩, hlast⟩

/-- **The bytes spell the number**: from one to ten groups of one word, whose number fits 64 bits. It does not have to
    be the shortest spelling. -/
structure Spells (bytes : Bytes) (n : Nat) : Prop where
  closed : Closed bytes
  length_le : bytes.length ≤ maxLength
  number : ofGroups bytes = n
  lt : n < 2 ^ 64

theorem Closed.length_pos {bytes : Bytes} (h : Closed bytes) : 0 < bytes.length := by
  obtain ⟨marked, last, rfl, -⟩ := h
  simp

/-! ## Reading -/

/-- Where the groups that bytes begin with end is decided by their first byte. -/
theorem exists_closed_front_cons {byte : UInt8} {tail rest : Bytes} {p : Bytes → Prop} :
    (∃ front, byte :: tail = front ++ rest ∧ Closed front ∧ p front) ↔
      if byte.toNat < 128 then tail = rest ∧ p [byte]
      else ∃ front, tail = front ++ rest ∧ Closed front ∧ p (byte :: front) := by
  constructor
  · rintro ⟨front, hfront, hclosed, hp⟩
    cases front with
    | nil => exact absurd hclosed not_closed_nil
    | cons first front =>
        obtain ⟨rfl, rfl⟩ := List.cons.inj hfront
        by_cases hlast : byte.toNat < 128
        · obtain rfl := (closed_cons_of_lt hlast).mp hclosed
          rw [if_pos hlast]
          exact ⟨rfl, hp⟩
        · rw [if_neg hlast]
          exact ⟨front, rfl, (closed_cons_of_ge (Nat.le_of_not_lt hlast)).mp hclosed, hp⟩
  · intro h
    by_cases hlast : byte.toNat < 128
    · rw [if_pos hlast] at h
      obtain ⟨rfl, hp⟩ := h
      exact ⟨[byte], rfl, (closed_cons_of_lt hlast).mpr rfl, hp⟩
    · rw [if_neg hlast] at h
      obtain ⟨front, rfl, hclosed, hp⟩ := h
      exact ⟨byte :: front, rfl, (closed_cons_of_ge (Nat.le_of_not_lt hlast)).mpr hclosed, hp⟩

/-- What the first of the groups that are left decides for the reader. -/
theorem readGroups_cons_eq_ok_iff {left n : Nat} {byte : UInt8} {tail rest : Bytes} :
    readGroups (left + 1) (byte :: tail) = (.ok n, rest) ↔
      ¬(left = 0 ∧ 1 < byte.toNat % 128) ∧
        if byte.toNat < 128 then byte.toNat % 128 = n ∧ tail = rest
        else ∃ high, readGroups left tail = (.ok high, rest) ∧ byte.toNat % 128 + 128 * high = n := by
  rw [readGroups]
  by_cases hover : left = 0 ∧ 1 < byte.toNat % 128
  · simp [hover]
  · by_cases hlast : byte.toNat < 128
    · simp [hover, hlast]
    · generalize readGroups left tail = reply
      obtain ⟨answer, unread⟩ := reply
      cases answer with
      | error fault => simp [hover, hlast]
      | ok high =>
          simp only [hover, hlast, not_false_eq_true, true_and, if_false, Prod.mk.injEq, Except.ok.injEq]
          constructor
          · rintro ⟨hn, hrest⟩
            exact ⟨high, ⟨rfl, hrest⟩, hn⟩
          · rintro ⟨_, ⟨rfl, hrest⟩, hn⟩
            exact ⟨hn, hrest⟩

/-- The last group that there may be holds one bit, any other group all of its bits. -/
theorem last_group_fits {left low : Nat} (hlow : low < 128) :
    64 * low < 128 ^ (left + 1) ↔ ¬(left = 0 ∧ 1 < low) := by
  cases left with
  | zero => omega
  | succ left =>
      have hpow := Nat.one_le_pow left 128 (by decide)
      rw [Nat.pow_succ, Nat.pow_succ]
      omega

/-- A group put below others is no question of room. -/
theorem more_groups_fit {left low high : Nat} (hleft : 0 < left) (hlow : low < 128) :
    64 * (low + 128 * high) < 128 ^ (left + 1) ↔ 64 * high < 128 ^ left := by
  obtain ⟨others, rfl⟩ : ∃ others, left = others + 1 := ⟨left - 1, by omega⟩
  rw [Nat.pow_succ, Nat.pow_succ]
  omega

/-- **A number is read off its groups and off nothing else.** The last of `left` groups holds one bit. -/
theorem readGroups_eq_ok_iff {left n : Nat} {bytes rest : Bytes} :
    readGroups left bytes = (.ok n, rest) ↔
      ∃ front, bytes = front ++ rest ∧ Closed front ∧ front.length ≤ left ∧ ofGroups front = n ∧
        64 * n < 128 ^ left := by
  -- by induction on the groups left: the first byte decides on both sides whether there is a group after it
  induction left generalizing n bytes with
  | zero =>
      constructor
      · intro h
        cases h
      · rintro ⟨front, -, hclosed, hlength, -⟩
        exact absurd hclosed.length_pos (Nat.not_lt.mpr hlength)
  | succ left ih =>
      cases bytes with
      | nil =>
          constructor
          · intro h
            cases h
          · rintro ⟨front, hfront, hclosed, -⟩
            rw [(List.append_eq_nil_iff.mp hfront.symm).1] at hclosed
            exact absurd hclosed not_closed_nil
      | cons byte tail =>
          have hlow : byte.toNat % 128 < 128 := Nat.mod_lt _ (by decide)
          rw [readGroups_cons_eq_ok_iff, exists_closed_front_cons]
          by_cases hlast : byte.toNat < 128
          · rw [if_pos hlast, if_pos hlast]
            constructor
            · rintro ⟨hover, rfl, rfl⟩
              exact ⟨rfl, by simp, rfl, (last_group_fits hlow).mpr hover⟩
            · rintro ⟨rfl, -, rfl, hlt⟩
              exact ⟨(last_group_fits hlow).mp hlt, rfl, rfl⟩
          · rw [if_neg hlast, if_neg hlast]
            constructor
            · rintro ⟨-, high, hread, rfl⟩
              obtain ⟨front, hfront, hclosed, hlength, rfl, hlt⟩ := ih.mp hread
              have hleft : 0 < left := Nat.lt_of_lt_of_le hclosed.length_pos hlength
              exact ⟨front, hfront, hclosed, Nat.succ_le_succ hlength, rfl, (more_groups_fit hleft hlow).mpr hlt⟩
            · rintro ⟨front, hfront, hclosed, hlength, rfl, hlt⟩
              have hlength := Nat.le_of_succ_le_succ hlength
              have hleft : 0 < left := Nat.lt_of_lt_of_le hclosed.length_pos hlength
              refine ⟨fun hover => absurd hover.1 (Nat.ne_of_gt hleft), ofGroups front, ?_, rfl⟩
              exact ih.mpr ⟨front, hfront, hclosed, hlength, rfl, (more_groups_fit hleft hlow).mp hlt⟩

theorem room_iff (n : Nat) : 64 * n < 128 ^ maxLength ↔ n < 2 ^ 64 := by
  have hpow : 128 ^ maxLength = 64 * 2 ^ 64 := rfl
  omega

/-- **A word is read off every spelling of it, and off nothing else.** -/
theorem read_eq_ok_iff {word : UInt64} {bytes rest : Bytes} :
    read bytes = (.ok word, rest) ↔ ∃ front, bytes = front ++ rest ∧ Spells front word.toNat := by
  unfold read
  constructor
  · intro h
    cases hgroups : readGroups maxLength bytes with
    | mk answer unread =>
        rw [hgroups] at h
        cases answer with
        | error fault => cases h
        | ok n =>
            obtain ⟨rfl, rfl⟩ : UInt64.ofNat n = word ∧ unread = rest := by simpa using h
            obtain ⟨front, hfront, hclosed, hlength, hnumber, hroom⟩ := readGroups_eq_ok_iff.mp hgroups
            have hlt := (room_iff n).mp hroom
            rw [UInt64.toNat_ofNat', Nat.mod_eq_of_lt hlt]
            exact ⟨front, hfront, hclosed, hlength, hnumber, hlt⟩
  · rintro ⟨front, hfront, hspells⟩
    have hgroups : readGroups maxLength bytes = (.ok word.toNat, rest) :=
      readGroups_eq_ok_iff.mpr
        ⟨front, hfront, hspells.closed, hspells.length_le, hspells.number, (room_iff _).mpr hspells.lt⟩
    rw [hgroups]
    simp

/-- A spelling is read off whatever it begins. -/
theorem Spells.read_append {front : Bytes} {word : UInt64} (h : Spells front word.toNat) (rest : Bytes) :
    read (front ++ rest) = (.ok word, rest) := read_eq_ok_iff.mpr ⟨front, rfl, h⟩

/-- A spelled number is that of a word. -/
theorem Spells.toNat_ofNat {bytes : Bytes} {n : Nat} (h : Spells bytes n) : (UInt64.ofNat n).toNat = n := by
  rw [UInt64.toNat_ofNat', Nat.mod_eq_of_lt h.lt]

/-- What is read off a spelling and what follows it. -/
theorem Spells.read_eq {front : Bytes} {n : Nat} (h : Spells front n) (rest : Bytes) :
    read (front ++ rest) = (.ok (UInt64.ofNat n), rest) := by
  rw [← h.toNat_ofNat] at h
  exact h.read_append rest

/-- **Of the beginnings of a byte string at most one spells a word.** -/
theorem Spells.append_inj {front other rest unread : Bytes} {n m : Nat} (h : Spells front n) (h' : Spells other m)
    (heq : front ++ rest = other ++ unread) : front = other ∧ rest = unread := by
  have hread := h.read_eq rest
  rw [heq, h'.read_eq unread, Prod.mk.injEq] at hread
  obtain rfl := hread.2
  exact ⟨List.append_cancel_right heq, rfl⟩

theorem Spells.ne_nil {bytes : Bytes} {n : Nat} (h : Spells bytes n) : bytes ≠ [] :=
  List.ne_nil_of_length_pos h.closed.length_pos

/-- The shortest spelling is one. -/
theorem spells_write (word : UInt64) : Spells (write word) word.toNat := by
  have hread := read_write word []
  rw [List.append_nil] at hread
  obtain ⟨front, hfront, hspells⟩ := read_eq_ok_iff.mp hread
  rw [List.append_nil] at hfront
  exact hfront ▸ hspells

/-! ## Faults -/

/-- What is wrong with bytes that do not begin with a word of at most `left` groups: there are too few of them, the
    last of the groups holds too much, or even the last one is marked. -/
def faultAt (left : Nat) (bytes : Bytes) : Fault :=
  if bytes.length < left then .varintPastEnd
  else if 0 < left ∧ 1 < (bytes.getD (left - 1) 0).toNat % 128 then .varintOverflow
  else .varintTooLong

/-- A byte that is not at fault itself leaves the fault to those behind it. -/
theorem faultAt_cons {left : Nat} {byte : UInt8} {rest : Bytes} (h : ¬(left = 0 ∧ 1 < byte.toNat % 128)) :
    faultAt (left + 1) (byte :: rest) = faultAt left rest := by
  unfold faultAt
  rw [List.length_cons, Nat.add_sub_cancel]
  simp only [Nat.add_lt_add_iff_right, Nat.succ_pos, true_and]
  cases left with
  | zero => simpa using h
  | succ left => simp

/-- **What a reader has taken when it gives up**: all groups that there may be, or all bytes that there are. -/
theorem readGroups_eq_error {left : Nat} {bytes rest : Bytes} {fault : Fault}
    (h : readGroups left bytes = (.error fault, rest)) : rest = bytes.drop left ∧ fault = faultAt left bytes := by
  -- by induction on the groups left: a byte is at fault itself only where it is the last that there may be
  induction left generalizing bytes with
  | zero =>
      cases h
      exact ⟨rfl, rfl⟩
  | succ left ih =>
      cases bytes with
      | nil =>
          cases h
          exact ⟨rfl, rfl⟩
      | cons byte tail =>
          rw [readGroups] at h
          by_cases hover : left = 0 ∧ 1 < byte.toNat % 128
          · rw [if_pos hover] at h
            cases h
            obtain ⟨rfl, hbits⟩ := hover
            exact ⟨rfl, (if_pos ⟨Nat.one_pos, hbits⟩).symm⟩
          · rw [if_neg hover] at h
            by_cases hlast : byte.toNat < 128
            · rw [if_pos hlast] at h
              cases h
            · rw [if_neg hlast] at h
              rw [faultAt_cons hover, List.drop_succ_cons]
              cases hmore : readGroups left tail with
              | mk answer unread =>
                  rw [hmore] at h
                  cases answer with
                  | ok high => cases h
                  | error more =>
                      cases h
                      exact ih hmore

theorem read_eq_error {bytes rest : Bytes} {fault : Fault} (h : read bytes = (.error fault, rest)) :
    rest = bytes.drop maxLength ∧ fault = faultAt maxLength bytes := by
  unfold read at h
  cases hgroups : readGroups maxLength bytes with
  | mk answer unread =>
      rw [hgroups] at h
      cases answer with
      | ok n => cases h
      | error fault =>
          cases h
          exact readGroups_eq_error hgroups

theorem kind_faultAt (left : Nat) (bytes : Bytes) : (faultAt left bytes).kind = .integrity := by
  unfold faultAt
  split
  · rfl
  · split <;> rfl

/-- What is left after a word, or after what is none, is the end of the bytes. -/
theorem read_suffix (bytes : Bytes) : (read bytes).2 <:+ bytes := by
  cases hread : read bytes with
  | mk answer rest =>
      cases answer with
      | ok word =>
          obtain ⟨front, rfl, -⟩ := read_eq_ok_iff.mp hread
          exact List.suffix_append front rest
      | error fault =>
          obtain ⟨rfl, -⟩ := read_eq_error hread
          exact List.drop_suffix maxLength bytes

end Varint

end SnapshotArchive

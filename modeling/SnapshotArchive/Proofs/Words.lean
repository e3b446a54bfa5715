import Mathlib.Algebra.Group.Nat.Defs
import SnapshotArchive.Varint
import SnapshotArchive.Zigzag

/-!
# `Proofs.Words` — every way of writing a word can be read back

## Contents
- **Fixed width.** `littleEndian` and `ofLittleEndian` are inverse to each other on strings of the right
  width, and `takeExactly?` cuts off exactly what was put in front.
- **Signed words.** `unzigzag_zigzag` and `zigzag_unzigzag`, by way of the numbers that the words stand for.
- **Variable width.** `Varint.read_write`: a written word is read back off the front of any byte string,
  and what follows it is left alone.
-/

namespace SnapshotArchive

/-! ## Fixed width -/

theorem length_littleEndian (width n : Nat) : (littleEndian width n).length = width := by
  induction width generalizing n with
  | zero => rfl
  | succ width ih => rw [littleEndian, List.length_cons, ih]

/-- Reading the low digits of a number gives the number up to the digits that were left out. -/
theorem ofLittleEndian_littleEndian (width n : Nat) :
    ofLittleEndian (littleEndian width n) = n % 256 ^ width := by
  induction width generalizing n with
  | zero => rw [littleEndian, ofLittleEndian, Nat.pow_zero, Nat.mod_one]
  | succ width ih =>
      have hdigit : (UInt8.ofNat n).toNat = n % 256 := UInt8.toNat_ofNat'
      rw [littleEndian, ofLittleEndian, ih, hdigit, Nat.pow_succ', Nat.mod_mul]

theorem ofLittleEndian_lt (bytes : Bytes) : ofLittleEndian bytes < 256 ^ bytes.length := by
  induction bytes with
  | nil => exact Nat.one_pos
  | cons byte rest ih =>
      have hbyte : byte.toNat < 256 := byte.toNat_lt
      rw [ofLittleEndian, List.length_cons, Nat.pow_succ']
      omega

/-- The digits of the number that a string denotes are the string. -/
theorem littleEndian_ofLittleEndian (bytes : Bytes) :
    littleEndian bytes.length (ofLittleEndian bytes) = bytes := by
  induction bytes with
  | nil => rfl
  | cons byte rest ih =>
      have hbyte : byte.toNat < 256 := byte.toNat_lt
      have hlow : (byte.toNat + 256 * ofLittleEndian rest) % 256 = byte.toNat := by omega
      have hhigh : (byte.toNat + 256 * ofLittleEndian rest) / 256 = ofLittleEndian rest := by omega
      have hdigit : UInt8.ofNat (byte.toNat + 256 * ofLittleEndian rest) = byte := by
        apply UInt8.toNat_inj.mp
        rw [UInt8.toNat_ofNat', hlow]
      rw [ofLittleEndian, List.length_cons, littleEndian, hhigh, ih, hdigit]

theorem ofLittleEndian_append (front rest : Bytes) :
    ofLittleEndian (front ++ rest)
      = ofLittleEndian front + 256 ^ front.length * ofLittleEndian rest := by
  induction front with
  | nil => rw [List.nil_append, ofLittleEndian, List.length_nil, Nat.pow_zero]; omega
  | cons byte front ih =>
      rw [List.cons_append, ofLittleEndian, ih, ofLittleEndian, List.length_cons, Nat.pow_succ',
        Nat.mul_add, Nat.mul_assoc, Nat.add_assoc]

theorem takeExactly?_append (front rest : Bytes) :
    takeExactly? front.length (front ++ rest) = some (front, rest) := by
  induction front with
  | nil => rfl
  | cons byte front ih => simp [takeExactly?, ih]

theorem takeExactly?_of_lt {n : Nat} {bytes : Bytes} (h : bytes.length < n) :
    takeExactly? n bytes = none := by
  cases hcut : takeExactly? n bytes with
  | none => rfl
  | some cut =>
      obtain ⟨hbytes, hlength⟩ := takeExactly?_eq_some hcut
      rw [hbytes, List.length_append] at h
      omega

/-! ## Signed words -/

theorem neg_iff_toUInt64 (value : Int64) : value < 0 ↔ 2 ^ 63 ≤ value.toUInt64.toNat := by
  rw [Int64.lt_iff_toInt_lt, ← Int64.toNat_toBitVec]
  have hcond : value.toInt = _ := BitVec.toInt_eq_toNat_cond value.toBitVec
  have hlt : value.toBitVec.toNat < 2 ^ 64 := value.toBitVec.isLt
  have hzero : (0 : Int64).toInt = 0 := rfl
  split at hcond <;> omega

/-- The number of a zigzag word. For a negative value `2 ^ 64 - value.toUInt64.toNat` is the magnitude. -/
theorem toNat_zigzag (value : Int64) :
    (zigzag value).toNat =
      if value < 0 then 2 ^ 65 - 1 - 2 * value.toUInt64.toNat else 2 * value.toUInt64.toNat := by
  have hlt := value.toUInt64.toNat_lt
  have hsign := neg_iff_toUInt64 value
  have hdouble : (value.toUInt64 <<< 1).toNat = 2 * value.toUInt64.toNat % 2 ^ 64 := by
    rw [UInt64.toNat_shiftLeft, Nat.shiftLeft_eq, Nat.mul_comm]
    rfl
  unfold zigzag
  by_cases hneg : value < 0
  · -- doubling drops the sign bit, and complementing makes the word odd
    rw [if_pos hneg, if_pos hneg, UInt64.toNat_not, hdouble]
    have := hsign.mp hneg
    simp only [UInt64.size]
    omega
  · rw [if_neg hneg, if_neg hneg, hdouble]
    have := mt hsign.mpr hneg
    omega

theorem toNat_and_one (word : UInt64) : (word &&& 1).toNat = word.toNat % 2 := by
  have hone : (1 : UInt64).toNat = 1 := rfl
  rw [UInt64.toNat_and, hone, Nat.and_one_is_mod]

theorem and_one_eq_zero_iff (word : UInt64) : word &&& 1 = 0 ↔ word.toNat % 2 = 0 := by
  rw [← UInt64.toNat_inj, toNat_and_one]
  rfl

theorem and_one_eq_one_iff (word : UInt64) : word &&& 1 = 1 ↔ word.toNat % 2 = 1 := by
  rw [← UInt64.toNat_inj, toNat_and_one]
  rfl

theorem toNat_shiftRight_one (word : UInt64) : (word >>> 1).toNat = word.toNat / 2 := by
  rw [UInt64.toNat_shiftRight, Nat.shiftRight_eq_div_pow]
  rfl

/-- **Zigzag words lose nothing.** -/
theorem unzigzag_zigzag (value : Int64) : unzigzag (zigzag value) = value := by
  have hlt := value.toUInt64.toNat_lt
  have hword := toNat_zigzag value
  have hparity := and_one_eq_zero_iff (zigzag value)
  have hhalf := toNat_shiftRight_one (zigzag value)
  have hsign := neg_iff_toUInt64 value
  unfold unzigzag
  by_cases hneg : value < 0
  · rw [if_pos hneg] at hword
    have := hsign.mp hneg
    have hnot : ~~~(zigzag value >>> 1) = value.toUInt64 := by
      apply UInt64.toNat_inj.mp
      rw [UInt64.toNat_not, hhalf, hword]
      simp only [UInt64.size]
      omega
    rw [if_neg (by rw [hparity]; omega)]
    show (~~~(zigzag value >>> 1)).toInt64 = value
    rw [hnot, Int64.toInt64_toUInt64]
  · rw [if_neg hneg] at hword
    have := mt hsign.mpr hneg
    have hsame : zigzag value >>> 1 = value.toUInt64 := by
      apply UInt64.toNat_inj.mp
      omega
    rw [if_pos (by rw [hparity]; omega), hsame, Int64.toInt64_toUInt64]

/-- **Every word is the zigzag word of a value.** -/
theorem zigzag_unzigzag (word : UInt64) : zigzag (unzigzag word) = word := by
  have hlt := word.toNat_lt
  have hparity := and_one_eq_zero_iff word
  have hhalf := toNat_shiftRight_one word
  have hword := toNat_zigzag (unzigzag word)
  have hsign := neg_iff_toUInt64 (unzigzag word)
  apply UInt64.toNat_inj.mp
  unfold unzigzag at hword hsign ⊢
  by_cases heven : word &&& 1 = 0
  · -- half of the word has no sign bit
    have hunsigned : (word >>> 1).toInt64.toUInt64 = word >>> 1 := rfl
    have := hparity.mp heven
    rw [if_pos heven, hunsigned, hhalf] at hword hsign
    rw [if_neg (mt hsign.mp (by omega))] at hword
    rw [if_pos heven]
    omega
  · -- the complement of half of the word has one
    have hunsigned : (~~~(word >>> 1).toInt64).toUInt64 = ~~~(word >>> 1) := rfl
    have hnot : (~~~(word >>> 1)).toNat = 2 ^ 64 - 1 - word.toNat / 2 := by
      rw [UInt64.toNat_not, hhalf]
      rfl
    have := mt hparity.mpr heven
    rw [if_neg heven, hunsigned, hnot] at hword hsign
    rw [if_pos (hsign.mpr (by omega))] at hword
    rw [if_neg heven]
    omega

/-! ## Variable width -/

namespace Varint

theorem writeNat_of_lt {n : Nat} (h : n < 128) : writeNat n = [UInt8.ofNat n] := by
  rw [writeNat, if_pos h]

theorem writeNat_of_ge {n : Nat} (h : 128 ≤ n) :
    writeNat n = UInt8.ofNat (n % 128 + 128) :: writeNat (n / 128) := by
  rw [writeNat, if_neg (Nat.not_lt.mpr h)]

/-- Groups are read back as long as the number fits them; the last of `left + 1` groups holds one bit. -/
theorem readGroups_writeNat {left n : Nat} (h : n < 2 * 128 ^ left) (rest : Bytes) :
    readGroups (left + 1) (writeNat n ++ rest) = (.ok n, rest) := by
  induction left generalizing n with
  | zero =>
      have hbyte : (UInt8.ofNat n).toNat = n := by rw [UInt8.toNat_ofNat']; omega
      rw [writeNat_of_lt (by omega), List.singleton_append, readGroups, hbyte, if_neg (by omega),
        if_pos (by omega), Nat.mod_eq_of_lt (by omega)]
  | succ left ih =>
      -- the writer stops at the first group below 128, and so does the reader
      by_cases hsmall : n < 128
      · have hbyte : (UInt8.ofNat n).toNat = n := by rw [UInt8.toNat_ofNat']; omega
        rw [writeNat_of_lt hsmall, List.singleton_append, readGroups, hbyte, if_neg (by omega),
          if_pos hsmall, Nat.mod_eq_of_lt hsmall]
      · have hbyte : (UInt8.ofNat (n % 128 + 128)).toNat = n % 128 + 128 := by
          rw [UInt8.toNat_ofNat']; omega
        have hlow : (n % 128 + 128) % 128 = n % 128 := by omega
        have hhigh : n / 128 < 2 * 128 ^ left := by rw [Nat.pow_succ] at h; omega
        rw [writeNat_of_ge (Nat.not_lt.mp hsmall), List.cons_append, readGroups, hbyte, hlow,
          if_neg (by omega), if_neg (by omega), ih hhigh]
        simp only [Nat.mod_add_div]

/-- **A written word is read back**, and what follows it is untouched. -/
theorem read_write (word : UInt64) (rest : Bytes) : read (write word ++ rest) = (.ok word, rest) := by
  have hfits : word.toNat < 2 * 128 ^ 9 := word.toNat_lt
  unfold read write
  rw [show maxLength = 9 + 1 from rfl, readGroups_writeNat hfits]
  simp only [UInt64.ofNat_toNat]

theorem length_writeNat_le {left n : Nat} (h : n < 128 ^ (left + 1)) :
    0 < (writeNat n).length ∧ (writeNat n).length ≤ left + 1 := by
  induction left generalizing n with
  | zero => rw [writeNat_of_lt (by omega)]; exact ⟨Nat.one_pos, Nat.le_refl 1⟩
  | succ left ih =>
      by_cases hsmall : n < 128
      · rw [writeNat_of_lt hsmall]
        exact ⟨Nat.one_pos, Nat.le_add_left _ _⟩
      · have hhigh : n / 128 < 128 ^ (left + 1) := by rw [Nat.pow_succ] at h; omega
        obtain ⟨-, hle⟩ := ih hhigh
        rw [writeNat_of_ge (Nat.not_lt.mp hsmall), List.length_cons]
        omega

/-- A word takes from one to `maxLength` bytes. -/
theorem length_write (word : UInt64) :
    0 < (write word).length ∧ (write word).length ≤ maxLength := by
  have hfits : word.toNat < 128 ^ (9 + 1) := Nat.lt_trans word.toNat_lt (by decide)
  exact length_writeNat_le hfits

theorem write_append_ne_nil (word : UInt64) (rest : Bytes) : write word ++ rest ≠ [] := by
  intro h
  have hlength := congrArg List.length h
  have := (length_write word).1
  rw [List.length_append, List.length_nil] at hlength
  omega

/-- A written word begins with a byte, and is read off whatever it begins. -/
theorem exists_cons_write (word : UInt64) (rest : Bytes) :
    ∃ byte bytes, write word ++ rest = byte :: bytes ∧ read (byte :: bytes) = (.ok word, rest) := by
  have hread := read_write word rest
  cases hbytes : write word ++ rest with
  | nil => exact absurd hbytes (write_append_ne_nil word rest)
  | cons byte bytes =>
      rw [hbytes] at hread
      exact ⟨byte, bytes, rfl, hread⟩

end Varint

end SnapshotArchive

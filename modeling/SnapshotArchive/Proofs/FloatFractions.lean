import SnapshotArchive.Proofs.FloatOrder

/-!
# `Proofs.FloatFractions` — floats that are fractions, and what rounding makes of them

A positive float is a mantissa over a power of two. Where the mantissa has all of its 53 bits there is one way to say
so (`Fraction`), and what is done with such floats can be said in whole numbers: a count is the float that it is turned
into, a product is the product of the mantissas, rounded once to the nearest, and rounding up is division.

## Contents
- **Rounding to the nearest.** `roundedAt_le_of_nearest`, `roundWithAccuracy_of_normal`.
- **Fractions.** `Fraction`, `Fraction.lt_iff`.
- **Products.** `Fraction.mul`.
- **Whole numbers.** `fraction_toFloat`, `fraction_ofNat`.
- **Rounding up.** `Fraction.ceilNat_le_iff`.
-/

namespace SnapshotArchive

namespace FloatOrder

open Float.Model (UnpackedFloat Format totalExponent)
open Float.Model.UnpackedFloat

/-! ## Rounding to the nearest -/

theorem roundedMantissa_of_round_false {mantissa : Nat} {sticky : Bool} :
    (ExtendedMantissa.mk mantissa false sticky).roundedMantissa = mantissa := by
  cases sticky <;> rfl

theorem roundedMantissa_le_succ (extended : ExtendedMantissa) : extended.roundedMantissa ≤ extended.mantissa + 1 := by
  obtain ⟨mantissa, round, sticky⟩ := extended
  cases round <;> cases sticky <;>
    simp [ExtendedMantissa.roundedMantissa, ExtendedMantissa.accuracy, Accuracy.roundToNearestEven]
  omega

/-- **Rounding goes to the nearest**: what is less than half a unit above a whole number of units is rounded down. -/
theorem roundedAt_le_of_nearest {mantissa shift bound : Nat} (h : 2 * mantissa < (2 * bound + 1) * 2 ^ shift) :
    roundedAt mantissa shift ≤ bound := by
  cases shift with
  | zero => exact roundedAt_le (by omega)
  | succ shift =>
      have hhalves : mantissa / 2 ^ shift < 2 * bound + 1 := by
        rw [Nat.div_lt_iff_lt_mul (Nat.two_pow_pos shift)]
        rw [Nat.pow_succ, ← Nat.mul_assoc] at h
        omega
      have hlast : ExtendedMantissa.mk mantissa false false >>> (shift + 1)
          = (ExtendedMantissa.mk mantissa false false >>> shift).shiftRightOne := rfl
      unfold roundedAt
      rw [hlast]
      rw [← mantissa_shiftRight ⟨mantissa, false, false⟩] at hhalves
      generalize ExtendedMantissa.mk mantissa false false >>> shift = extended at hhalves ⊢
      have hunits : extended.shiftRightOne.mantissa = extended.mantissa / 2 := rfl
      -- the last bit shifted out decides, and it is clear if all units of the bound are there
      by_cases heven : extended.mantissa = 2 * bound
      · have hround : extended.shiftRightOne = ⟨bound, false, extended.roundBit || extended.stickyBit⟩ := by
          unfold ExtendedMantissa.shiftRightOne
          rw [heven]
          simp
        rw [hround]
        exact Nat.le_of_eq roundedMantissa_of_round_false
      · have hsucc := roundedMantissa_le_succ extended.shiftRightOne
        rw [hunits] at hsucc
        omega

/-- A mantissa of 53 bits is not changed by rounding, whatever the units. -/
theorem roundWithAccuracy_of_normal (sign : Sign) {mantissa : Nat} {exponent : Int} (hlow : 2 ^ 52 ≤ mantissa)
    (hhigh : mantissa < 2 ^ 53) (hleast : -1074 ≤ exponent) (shift : Nat) :
    roundWithAccuracy .binary64 sign (mantissa * 2 ^ shift) (exponent - shift) .exact
      = .finite sign mantissa exponent (Nat.lt_of_lt_of_le (by decide) hlow) := by
  have hlog : mantissa.log2 = 52 := (Nat.log2_eq_iff (by omega)).mpr ⟨hlow, hhigh⟩
  have htarget : leastExponent (mantissa * 2 ^ shift) (exponent - shift) = exponent := by
    unfold leastExponent
    rw [log2_mul_two_pow (by omega), hlog]
    omega
  have hshift : (exponent - (exponent - shift)).toNat = shift := by omega
  have hrounded : roundedAt (mantissa * 2 ^ shift) shift = mantissa :=
    Nat.le_antisymm (roundedAt_le (Nat.le_of_eq (Nat.mul_comm _ _))) (le_roundedAt (Nat.le_refl _))
  have hyields := roundWithAccuracy_exact sign htarget (by omega) (by rw [hshift, hrounded])
  rcases hyields with ⟨hzero, -⟩ | ⟨_, -, hresult⟩ | ⟨_, htop, -⟩
  · omega
  · exact hresult
  · omega

/-! ## Fractions -/

/-- The float is `mantissa / 2 ^ shift`, and all bits of its mantissa are in use. -/
structure Fraction (x : Float) (mantissa shift : Nat) : Prop where
  low : 2 ^ 52 ≤ mantissa
  high : mantissa < 2 ^ 53
  unpack : ∃ hpos, x.toModel.unpack = .finite .positive mantissa (-shift) hpos

variable {x y : Float} {m m' a b : Nat}

theorem Fraction.of_pack {unpacked : UnpackedFloat} (hlow : 2 ^ 52 ≤ m) (hhigh : m < 2 ^ 53) (ha : a ≤ 1074)
    (hpacked : x.toModel.unpack = UnpackedFloat.unpack .binary64 (UnpackedFloat.pack .binary64 unpacked))
    (h : ∃ hpos, unpacked = .finite .positive m (-a) hpos) : Fraction x m a := by
  obtain ⟨hpos, rfl⟩ := h
  refine ⟨hlow, hhigh, hpos, ?_⟩
  rw [hpacked, unpack_pack]
  exact ⟨hhigh, by omega, by omega, .inl hlow⟩

/-- Of two mantissas of 53 bits, the one at the higher place is that of the greater number. -/
theorem mul_lt_mul_of_place {m m' a b : Nat} (hlow : 2 ^ 52 ≤ m) (hhigh : m' < 2 ^ 53) (h : a < b) :
    m' * 2 ^ a < m * 2 ^ b :=
  calc m' * 2 ^ a < 2 ^ 53 * 2 ^ a := Nat.mul_lt_mul_of_pos_right hhigh (Nat.two_pow_pos a)
    _ = 2 ^ 52 * 2 ^ (a + 1) := by rw [← Nat.pow_add, ← Nat.pow_add, Nat.add_right_comm 52 1 a, Nat.add_assoc 52 a 1]
    _ ≤ m * 2 ^ b := Nat.mul_le_mul hlow (Nat.pow_le_pow_right (by decide) h)

/-- The order of fractions is that of the numbers. -/
theorem Fraction.lt_iff (hx : Fraction x m a) (hy : Fraction y m' b) : x < y ↔ m * 2 ^ b < m' * 2 ^ a := by
  obtain ⟨hlow, hhigh, hpos, hunpack⟩ := hx
  obtain ⟨hlow', hhigh', hpos', hunpack'⟩ := hy
  rw [FloatOrder.lt_iff, lt_iff_rank (canonical x) (canonical y), hunpack, hunpack']
  have hrank : rank (.finite .positive m (-a) hpos) < rank (.finite .positive m' (-b) hpos') ↔
      (-(a : Int) + 1075) * 2 ^ 53 + m < (-(b : Int) + 1075) * 2 ^ 53 + m' := Iff.rfl
  rw [hrank, and_iff_right (by rintro ⟨⟩), and_iff_right (by rintro ⟨⟩)]
  -- the mantissas only matter if the places are the same
  rcases Nat.lt_trichotomy a b with hplace | rfl | hplace
  · have hgreater := mul_lt_mul_of_place hlow hhigh' hplace
    omega
  · rw [Nat.mul_lt_mul_right (Nat.two_pow_pos a)]
    omega
  · have hless := mul_lt_mul_of_place hlow' hhigh hplace
    omega

/-! ## Products -/

theorem log2_mul_normal (hlow : 2 ^ 52 ≤ m) (hhigh : m < 2 ^ 53) (hlow' : 2 ^ 52 ≤ m') (hhigh' : m' < 2 ^ 53) :
    (m * m').log2 = 104 ∨ (m * m').log2 = 105 := by
  have hpos : m * m' ≠ 0 := Nat.ne_of_gt (Nat.mul_pos (by omega) (by omega))
  have hleast : 2 ^ 52 * 2 ^ 52 ≤ m * m' := Nat.mul_le_mul hlow hlow'
  have hmost : m * m' < 2 ^ 53 * 2 ^ 53 := Nat.mul_lt_mul'' hhigh hhigh'
  rw [← Nat.pow_add] at hleast hmost
  have hle := (Nat.le_log2 hpos).mpr hleast
  have hlt := (Nat.log2_lt hpos).mpr hmost
  omega

theorem Fraction.unpack_mul (hx : Fraction x m a) (hy : Fraction y m' b) :
    (x * y).toModel.unpack = UnpackedFloat.unpack .binary64 (UnpackedFloat.pack .binary64
      (roundWithAccuracy .binary64 .positive (m * m') (-a + -b) .exact)) := by
  obtain ⟨-, -, hpos, hunpack⟩ := hx
  obtain ⟨-, -, hpos', hunpack'⟩ := hy
  show UnpackedFloat.unpack .binary64 (UnpackedFloat.pack .binary64
    (UnpackedFloat.mul .binary64 x.toModel.unpack y.toModel.unpack)) = _
  rw [hunpack, hunpack']
  rfl

/-- **A product of fractions is rounded once**, in units that leave 53 bits. If rounding up makes one bit too many, the
    last bit is a zero and goes. -/
theorem Fraction.mul (hx : Fraction x m a) (hy : Fraction y m' b) (hroom : 54 ≤ a + b) (hleast : a + b ≤ 1074) :
    ∃ shift carry mantissa place, (shift = 52 ∨ shift = 53) ∧ shift + place + carry = a + b ∧
      Fraction (x * y) mantissa place ∧ mantissa * 2 ^ carry = roundedAt (m * m') shift := by
  have hpos : 0 < m * m' := Nat.mul_pos (Nat.lt_of_lt_of_le (by decide) hx.low) (Nat.lt_of_lt_of_le (by decide) hy.low)
  have hlog := log2_mul_normal hx.low hx.high hy.low hy.high
  -- the product has 105 or 106 bits, and all but 53 of them are shifted out
  obtain ⟨shift, hshift⟩ : ∃ shift, (m * m').log2 = 52 + shift := ⟨(m * m').log2 - 52, by omega⟩
  obtain ⟨place, hplace⟩ : ∃ place, shift + place = a + b := ⟨a + b - shift, by omega⟩
  have htarget : leastExponent (m * m') (-a + -b) = -place := by
    unfold leastExponent
    omega
  have hunits : ((-place : Int) - (-a + -b)).toNat = shift := by omega
  have hnormal : 2 ^ 52 ≤ roundedAt (m * m') shift := by
    refine le_roundedAt ?_
    rw [← Nat.pow_add, ← hshift]
    exact Nat.log2_self_le (Nat.ne_of_gt hpos)
  have hyields := roundWithAccuracy_exact .positive htarget (by omega) (by rw [hunits])
  rcases hyields with ⟨hzero, -⟩ | ⟨hsome, hfits, hresult⟩ | ⟨hsome, htop, hresult⟩
  · omega
  · exact ⟨shift, 0, roundedAt (m * m') shift, place, by omega, by omega,
      .of_pack hnormal hfits (by omega) (hx.unpack_mul hy) ⟨hsome, hresult⟩, Nat.mul_one _⟩
  · have hexponent : (-place + 1 : Int) = -(place - 1 : Nat) := by omega
    rw [hexponent] at hresult
    exact ⟨shift, 1, 2 ^ 52, place - 1, by omega, by omega,
      .of_pack (by decide) (by decide) (by omega) (hx.unpack_mul hy) ⟨hsome, hresult⟩, htop.symm⟩

/-! ## Whole numbers -/

/-- How many bits a whole number lacks of 53. -/
def spareBits (n : Nat) : Nat := 52 - n.log2

theorem normal_spareBits {n : Nat} (hpos : 0 < n) (hfits : n < 2 ^ 53) :
    2 ^ 52 ≤ n * 2 ^ spareBits n ∧ n * 2 ^ spareBits n < 2 ^ 53 := by
  have hlog : n.log2 < 53 := (Nat.log2_lt (Nat.ne_of_gt hpos)).mpr hfits
  have htop : (n * 2 ^ spareBits n).log2 = 52 := by
    rw [log2_mul_two_pow hpos]
    unfold spareBits
    omega
  have hsome : n * 2 ^ spareBits n ≠ 0 := Nat.ne_of_gt (Nat.mul_pos hpos (Nat.two_pow_pos _))
  exact (Nat.log2_eq_iff hsome).mp htop

theorem round_whole {n : Nat} (hpos : 0 < n) (hfits : n < 2 ^ 53) :
    round .binary64 .positive n 0
      = .finite .positive (n * 2 ^ spareBits n) (-spareBits n) (Nat.mul_pos hpos (Nat.two_pow_pos _)) := by
  obtain ⟨hlow, hhigh⟩ := normal_spareBits hpos hfits
  have hlog : n.log2 < 53 := (Nat.log2_lt (Nat.ne_of_gt hpos)).mpr hfits
  have hspare : (-leastExponent n 0).toNat = spareBits n := by
    unfold leastExponent spareBits
    omega
  have hleast : -1074 ≤ (-spareBits n : Int) := by
    unfold spareBits
    omega
  have hexact := roundWithAccuracy_of_normal .positive hlow hhigh hleast 0
  rw [Nat.pow_zero, Nat.mul_one, Int.natCast_zero, Int.sub_zero] at hexact
  refine Eq.trans ?_ hexact
  unfold UnpackedFloat.round decreaseExponent
  simp only [targetExponent_eq, Int.zero_sub, hspare, Nat.shiftLeft_eq]

/-- A word of at most 53 bits is a float. -/
theorem fraction_toFloat {word : UInt64} (hpos : 0 < word.toNat) (hfits : word.toNat < 2 ^ 53) :
    Fraction word.toFloat (word.toNat * 2 ^ spareBits word.toNat) (spareBits word.toNat) := by
  obtain ⟨hlow, hhigh⟩ := normal_spareBits hpos hfits
  have hspare : spareBits word.toNat ≤ 1074 := by
    unfold spareBits
    omega
  have hnormalize : normalize .binary64 word.toNat 0 .positive = round .binary64 .positive word.toNat 0 := by
    unfold UnpackedFloat.normalize
    rw [Int.compare_eq_gt.mpr (Int.natCast_pos.mpr hpos), Int.toNat_natCast]
  exact .of_pack hlow hhigh hspare rfl ⟨_, hnormalize.trans (round_whole hpos hfits)⟩

/-- The float one. -/
theorem fraction_one : Fraction (Float.ofBits 0x3FF0000000000000) (2 ^ 52) 52 := ⟨by decide, by decide, by decide, rfl⟩

/-- A whole number of at most 53 bits is a float. -/
theorem fraction_ofNat {n : Nat} (hpos : 0 < n) (hfits : n < 2 ^ 53) :
    Fraction (Float.ofNat n) (n * 2 ^ spareBits n) (spareBits n) := by
  have hword : n.toUInt64.toNat = n := by
    show n % 2 ^ 64 = n
    omega
  have hnumber : Fraction n.toUInt64.toFloat _ _ := fraction_toFloat (by omega) (by omega)
  rw [hword] at hnumber
  have hscale : Float.ofNat n = n.toUInt64.toFloat * Float.ofBits 0x3FF0000000000000 := by
    show Float.ofScientific n false 0 = _
    unfold Float.ofScientific
    rw [dif_pos ⟨hfits, by decide⟩]
    rfl
  have hleast : -1074 ≤ (-spareBits n : Int) := by
    unfold spareBits
    omega
  -- the product with one is a number of 53 bits in smaller units
  have hexact := roundWithAccuracy_of_normal .positive hnumber.low hnumber.high hleast 52
  rw [hscale]
  exact .of_pack hnumber.low hnumber.high (by omega) (hnumber.unpack_mul fraction_one) ⟨_, hexact⟩

/-! ## Rounding up -/

/-- The whole part of a fraction. -/
theorem Fraction.toNat_toUInt64 (h : Fraction x m a) : x.toUInt64.toNat = m / 2 ^ a := by
  obtain ⟨-, hhigh, hpos, hunpack⟩ := h
  have hwhole : m / 2 ^ a < 2 ^ 53 := Nat.lt_of_le_of_lt (Nat.div_le_self _ _) hhigh
  have hint : roundToInt .positive m (-a) = (m / 2 ^ a : Nat) := by
    have hup : ((-a : Int) - 0).toNat = 0 := by omega
    have hdown : ((0 : Int) - (-a - (0 : Nat))).toNat = a := by omega
    unfold roundToInt decreaseExponent shiftToExponent
    simp only [hup, hdown]
    exact congrArg Int.ofNat (mantissa_shiftRight _ a)
  show (UInt64.ofNatClamp (UnpackedFloat.toInt 0 (UInt64.size - 1) x.toModel.unpack).toNat).toNat = _
  rw [hunpack]
  show (UInt64.ofNatClamp (roundToInt .positive m (-a)).toNat).toNat = _
  rw [hint, Int.toNat_natCast, UInt64.toNat_ofNatClamp_of_lt (Nat.lt_trans hwhole (by decide))]

/-- Zero comes before every fraction. -/
theorem Fraction.zero_lt (h : Fraction x m a) {word : UInt64} (hword : word.toNat = 0) : word.toFloat < x := by
  obtain ⟨-, -, hpos, hunpack⟩ := h
  obtain rfl : word = 0 := UInt64.toNat_inj.mp hword
  rw [FloatOrder.lt_iff, hunpack]
  rfl

/-- The whole part is less than the fraction if anything is left behind the point. -/
theorem Fraction.toFloat_lt_iff (h : Fraction x m a) : x.toUInt64.toFloat < x ↔ m / 2 ^ a * 2 ^ a < m := by
  have hwhole := h.toNat_toUInt64
  have hle : m / 2 ^ a ≤ m := Nat.div_le_self _ _
  rcases Nat.eq_zero_or_pos (m / 2 ^ a) with hnone | hsome
  · have hpos : 0 < m := Nat.lt_of_lt_of_le (by decide) h.low
    rw [hnone, Nat.zero_mul]
    exact iff_of_true (h.zero_lt (hwhole.trans hnone)) hpos
  · have hhigh := h.high
    have hfraction : Fraction x.toUInt64.toFloat _ _ := fraction_toFloat (by omega) (by omega)
    rw [hfraction.lt_iff h, hwhole, Nat.mul_right_comm, Nat.mul_lt_mul_right (Nat.two_pow_pos _)]

/-- **Rounding up is the least whole number that is not below**: it is at most `n` if the fraction is. -/
theorem Fraction.ceilNat_le_iff (h : Fraction x m a) (n : Nat) : ceilNat x ≤ n ↔ m ≤ n * 2 ^ a := by
  have hunits : m / 2 ^ a < n ↔ m < n * 2 ^ a := Nat.div_lt_iff_lt_mul (Nat.two_pow_pos a)
  have hbelow : m / 2 ^ a * 2 ^ a ≤ m := Nat.div_mul_le_self _ _
  unfold ceilNat
  simp only [h.toFloat_lt_iff, h.toNat_toUInt64]
  split
  · rename_i hrest
    rw [Nat.succ_le_iff, hunits]
    refine ⟨Nat.le_of_lt, fun hle => Nat.lt_of_le_of_ne hle fun heq => ?_⟩
    rw [heq, Nat.mul_div_cancel _ (Nat.two_pow_pos a)] at hrest
    exact Nat.lt_irrefl _ hrest
  · rename_i hexact
    have hwhole : m / 2 ^ a * 2 ^ a = m := Nat.le_antisymm hbelow (Nat.not_lt.mp hexact)
    constructor
    · intro hle
      exact hwhole ▸ Nat.mul_le_mul_right _ hle
    · intro hle
      exact Nat.le_of_mul_le_mul_right (Nat.le_trans hbelow hle) (Nat.two_pow_pos a)

end FloatOrder

end SnapshotArchive

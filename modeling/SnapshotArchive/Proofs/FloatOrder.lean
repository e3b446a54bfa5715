import Mathlib.Algebra.Group.Int.Defs
import Mathlib.Algebra.GroupWithZero.Nat
import Mathlib.Tactic.Set
import SnapshotArchive.Health.Report
import SnapshotArchive.Statistics

/-!
# `Proofs.FloatOrder` — what the order of floating-point numbers says about a difference

The tests of a monitor compare a ratio with a reference from which a margin has been taken away. That a ratio
below such a difference is below the reference itself needs two facts about the arithmetic: the margin has no
sign, and rounding a difference does not lift it above what it was taken from.

The order is reduced to that of integers. `rank` numbers the values in their order, for mantissas that are in
their proper place (`Canonical`), and rounding a positive number yields a rank that no canonical number below
it is passed by (`round_atMost`).

## Contents
- **Signs.** `isMinus`, which packing preserves; `Unpacks`, what unpacking makes of the fields of a number.
- **Ranks.** `Canonical`, `rank`, `unpack_pack`, `lt_iff_rank`.
- **Rounding.** `AtMost`, `roundWithAccuracy_exact`, `round_atMost`.
- **Operations.** `Plus` and the operations that keep it; `rank_sub_le`.
- **Numbers without a sign.** `Unsigned`, `lt_of_lt_sub`.
- **Extremes.** `pick`; `foldl_floatMin`, `foldl_floatMax`: what the least and the greatest of some floats are.
-/

namespace SnapshotArchive

namespace FloatOrder

open Float.Model (UnpackedFloat Format totalExponent)
open Float.Model.UnpackedFloat

/-! ## Signs -/

/-- Whether the sign bit is set. A NaN has none. -/
def isMinus : UnpackedFloat → Bool
  | .notANumber => false
  | .infinity sign | .zero sign | .finite sign .. => sign == .negative

/-- The sign is the topmost bit. -/
theorem ofBitVec_unpackSign (sign : Sign) (exponent : BitVec 11) (mantissa : BitVec 52) :
    Sign.ofBitVec (unpackSign (packComponents .binary64 sign exponent mantissa)) = sign := by
  have htop : unpackSign (packComponents .binary64 sign exponent mantissa)
      = (sign.toBitVec ++ exponent ++ mantissa).extractLsb' 63 1 := rfl
  have hsign : (sign.toBitVec ++ exponent ++ mantissa).extractLsb' 63 1 = sign.toBitVec := by
    rw [BitVec.extractLsb'_append_eq_ite, dif_neg (by decide), BitVec.extractLsb'_append_eq_ite, dif_neg (by decide)]
    exact BitVec.extractLsb'_eq_self
  rw [htop, hsign]
  cases sign <;> rfl

theorem toNat_one_append (mantissa : BitVec 52) : (1#1 ++ mantissa).toNat = 2 ^ 52 + mantissa.toNat := by
  rw [BitVec.toNat_append, ← Nat.shiftLeft_add_eq_or_of_lt mantissa.isLt]
  rfl

theorem finite_congr {sign sign' : Sign} {mantissa mantissa' : Nat} {exponent exponent' : Int} (hsign : sign = sign')
    (hmantissa : mantissa = mantissa') (hexponent : exponent = exponent') (hpos : 0 < mantissa) (hpos' : 0 < mantissa') :
    UnpackedFloat.finite sign mantissa exponent hpos = .finite sign' mantissa' exponent' hpos' := by
  subst hsign hmantissa hexponent
  rfl

/-- What unpacking makes of the fields of a number. -/
inductive Unpacks (sign : Sign) (exponent : BitVec 11) (mantissa : BitVec 52) : UnpackedFloat → Prop where
  | infinity (top : exponent = -1#11) (clear : mantissa = 0#52) : Unpacks sign exponent mantissa (.infinity sign)
  | notANumber (top : exponent = -1#11) (marked : mantissa ≠ 0#52) : Unpacks sign exponent mantissa .notANumber
  | zero (bottom : exponent = 0#11) (clear : mantissa = 0#52) : Unpacks sign exponent mantissa (.zero sign)
  | subnormal (bottom : exponent = 0#11) (pos : 0 < mantissa.toNat) :
      Unpacks sign exponent mantissa (.finite sign mantissa.toNat (-1074) pos)
  | normal (belowTop : exponent ≠ -1#11) (aboveBottom : exponent ≠ 0#11) (pos : 0 < 2 ^ 52 + mantissa.toNat) :
      Unpacks sign exponent mantissa (.finite sign (2 ^ 52 + mantissa.toNat) (exponent.toNat - 1075) pos)

theorem unpacks (bits : BitVec 64) :
    Unpacks (Sign.ofBitVec (@unpackSign .binary64 bits)) (@unpackExponent .binary64 bits)
      (@unpackMantissa .binary64 bits) (unpack .binary64 bits) := by
  unfold unpack
  dsimp only
  by_cases htop : @unpackExponent .binary64 bits = -1#11
  · rw [if_pos htop]
    by_cases hclear : @unpackMantissa .binary64 bits = 0#52
    · rw [if_pos hclear]
      exact .infinity htop hclear
    · rw [if_neg hclear]
      exact .notANumber htop hclear
  · rw [if_neg htop]
    by_cases hbottom : @unpackExponent .binary64 bits = 0#11
    · rw [if_pos hbottom]
      by_cases hclear : @unpackMantissa .binary64 bits = 0#52
      · rw [dif_pos hclear]
        exact .zero hbottom hclear
      · have hpos : 0 < (@unpackMantissa .binary64 bits).toNat :=
          Nat.pos_of_ne_zero fun hzero => hclear (BitVec.eq_of_toNat_eq hzero)
        rw [dif_neg hclear, finite_congr rfl rfl (by rw [hbottom]) _ hpos]
        exact .subnormal hbottom hpos
    · have hpos : 0 < 2 ^ 52 + (@unpackMantissa .binary64 bits).toNat := by omega
      rw [if_neg hbottom, finite_congr rfl (toNat_one_append _) rfl _ hpos]
      exact .normal htop hbottom hpos

theorem unpacks_packComponents (sign : Sign) (exponent : BitVec 11) (mantissa : BitVec 52) :
    Unpacks sign exponent mantissa (unpack .binary64 (packComponents .binary64 sign exponent mantissa)) := by
  have hunpacks := unpacks (packComponents .binary64 sign exponent mantissa)
  rwa [ofBitVec_unpackSign, unpackExponent_packComponents, unpackMantissa_packComponents] at hunpacks

/-- Taking apart what has been put together, unless the exponent is that of a NaN. -/
theorem isMinus_unpack_packComponents (sign : Sign) (exponent : BitVec 11) (mantissa : BitVec 52)
    (h : exponent = -1#11 → mantissa = 0#52) :
    isMinus (unpack .binary64 (packComponents .binary64 sign exponent mantissa)) = (sign == .negative) := by
  have hunpacks := unpacks_packComponents sign exponent mantissa
  generalize unpack .binary64 (packComponents .binary64 sign exponent mantissa) = x at hunpacks
  cases hunpacks with
  | notANumber top marked => exact absurd (h top) marked
  | infinity | zero | subnormal | normal => rfl

theorem ofNat_ne_neg_one {exponent : Nat} (h : exponent + 1 < 2 ^ 11) : BitVec.ofNat 11 exponent ≠ -1#11 := by
  intro heq
  have hmod := congrArg BitVec.toNat heq
  rw [BitVec.toNat_ofNat, Nat.mod_eq_of_lt (by omega), show (-1#11).toNat = 2047 from rfl] at hmod
  omega

/-- What packing makes of a number: the exponent is shifted so that the least one is zero, and there is no field for the
    leading bit. -/
theorem pack_finite (sign : Sign) (mantissa : Nat) (exponent : Int) (hpos : 0 < mantissa) :
    pack .binary64 (.finite sign mantissa exponent hpos) =
      if 2 ^ 11 ≤ (exponent + 1075).toNat + 1 then packedInfinity .binary64 sign
      else if mantissa.log2 + 1 = 53 then
        packComponents .binary64 sign (BitVec.ofNat 11 (exponent + 1075).toNat) (BitVec.ofNat 52 mantissa)
      else packComponents .binary64 sign 0#11 (BitVec.ofNat 52 mantissa) := by
  rw [show exponent + 1075 = exponent + (1023 : Nat) + (52 : Nat) by omega]
  rfl

/-- Packing keeps the sign, whatever it does to the magnitude. -/
theorem isMinus_unpack_pack (x : UnpackedFloat) :
    isMinus (unpack .binary64 (pack .binary64 x)) = isMinus x := by
  cases x with
  | notANumber => rfl
  | infinity sign => cases sign <;> rfl
  | zero sign => cases sign <;> rfl
  | finite sign mantissa exponent hpos =>
      show isMinus (unpack .binary64 (pack .binary64 (.finite sign mantissa exponent hpos))) = (sign == .negative)
      rw [pack_finite]
      split
      · exact isMinus_unpack_packComponents _ _ _ (fun _ => rfl)
      · rename_i hroom
        split
        · refine isMinus_unpack_packComponents _ _ _ fun hexponent => ?_
          exact absurd hexponent (ofNat_ne_neg_one (Nat.lt_of_not_le hroom))
        · refine isMinus_unpack_packComponents _ _ _ fun hexponent => ?_
          cases hexponent

/-! ## Ranks -/

/-- What unpacking yields: a mantissa of 53 bits, of which the first is missing only at the least exponent. -/
def Canonical : UnpackedFloat → Prop
  | .notANumber | .infinity _ | .zero _ => True
  | .finite _ mantissa exponent _ =>
      mantissa < 2 ^ 53 ∧ -1074 ≤ exponent ∧ exponent ≤ 971 ∧ (2 ^ 52 ≤ mantissa ∨ exponent = -1074)

/-- The place of a number in the order of all numbers. The two zeros share one. -/
def rank : UnpackedFloat → Int
  | .notANumber => 0
  | .infinity sign => sign.apply (2 ^ 64)
  | .zero _ => 0
  | .finite sign mantissa exponent _ => sign.apply ((exponent + 1075) * 2 ^ 53 + mantissa)

theorem canonical_unpack (bits : BitVec 64) : Canonical (unpack .binary64 bits) := by
  have hmantissa : (@unpackMantissa .binary64 bits).toNat < 2 ^ 52 := BitVec.isLt _
  have hexponent : (@unpackExponent .binary64 bits).toNat < 2 ^ 11 := BitVec.isLt _
  have hunpacks := unpacks bits
  generalize unpack .binary64 bits = x at hunpacks
  cases hunpacks with
  | infinity | notANumber | zero => trivial
  | subnormal => exact ⟨by omega, by omega, by omega, .inr rfl⟩
  | normal belowTop aboveBottom =>
      have hsome : (@unpackExponent .binary64 bits).toNat ≠ 0 := fun hzero => aboveBottom (BitVec.eq_of_toNat_eq hzero)
      have hroom : (@unpackExponent .binary64 bits).toNat ≠ 2047 := fun hmax => belowTop (BitVec.eq_of_toNat_eq hmax)
      exact ⟨by omega, by omega, by omega, .inl (Nat.le_add_right _ _)⟩

theorem toNat_ofNat_eleven {exponent : Nat} (h : exponent < 2 ^ 11) : (BitVec.ofNat 11 exponent).toNat = exponent := by
  rw [BitVec.toNat_ofNat, Nat.mod_eq_of_lt h]

/-- **Nothing is lost in packing** what can be unpacked. -/
theorem unpack_pack {x : UnpackedFloat} (h : Canonical x) : unpack .binary64 (pack .binary64 x) = x := by
  cases x with
  | notANumber => rfl
  | infinity sign => cases sign <;> rfl
  | zero sign => cases sign <;> rfl
  | finite sign mantissa exponent hpos =>
      obtain ⟨hmantissa, hleast, hmost, hnormal⟩ := h
      obtain ⟨biased, hbiased⟩ := Int.eq_ofNat_of_zero_le (show 0 ≤ exponent + 1074 by omega)
      have hfield : (exponent + 1075).toNat = biased + 1 := by omega
      have hbits : mantissa.log2 + 1 = 53 ↔ 2 ^ 52 ≤ mantissa := by
        have hlow : 52 ≤ mantissa.log2 ↔ 2 ^ 52 ≤ mantissa := Nat.le_log2 (by omega)
        have hhigh : mantissa.log2 < 53 ↔ mantissa < 2 ^ 53 := Nat.log2_lt (by omega)
        omega
      rw [pack_finite, hfield, if_neg (by omega)]
      by_cases hbit : 2 ^ 52 ≤ mantissa
      · rw [if_pos (hbits.mpr hbit)]
        have hexponent : (BitVec.ofNat 11 (biased + 1)).toNat = biased + 1 := toNat_ofNat_eleven (by omega)
        have hlow : (BitVec.ofNat 52 mantissa).toNat = mantissa - 2 ^ 52 := by
          rw [BitVec.toNat_ofNat]
          omega
        have hunpacks := unpacks_packComponents sign (BitVec.ofNat 11 (biased + 1)) (BitVec.ofNat 52 mantissa)
        generalize unpack .binary64 _ = x at hunpacks
        cases hunpacks with
        | infinity top | notANumber top => exact absurd top (ofNat_ne_neg_one (by omega))
        | zero bottom | subnormal bottom =>
            rw [bottom] at hexponent
            cases hexponent
        | normal belowTop aboveBottom hpacked => exact finite_congr rfl (by omega) (by omega) hpacked hpos
      · rw [if_neg fun hlog => hbit (hbits.mp hlog)]
        have hsame : (BitVec.ofNat 52 mantissa).toNat = mantissa := by
          rw [BitVec.toNat_ofNat, Nat.mod_eq_of_lt (by omega)]
        have hunpacks := unpacks_packComponents sign 0#11 (BitVec.ofNat 52 mantissa)
        generalize unpack .binary64 _ = x at hunpacks
        cases hunpacks with
        | infinity top | notANumber top => cases top
        | zero bottom clear =>
            rw [clear] at hsame
            exact absurd hsame.symm (Nat.ne_of_gt hpos)
        | subnormal bottom hpacked => exact finite_congr rfl hsame (hnormal.resolve_left hbit).symm hpacked hpos
        | normal belowTop aboveBottom => exact absurd rfl aboveBottom

/-- The order within one sign, by exponent and then by mantissa. -/
theorem then_eq_lt_iff {exponent exponent' : Int} {mantissa mantissa' : Nat} (h : mantissa < 2 ^ 53)
    (h' : mantissa' < 2 ^ 53) :
    (compare exponent exponent').then (compare mantissa mantissa') = .lt ↔
      (exponent + 1075) * 2 ^ 53 + mantissa < (exponent' + 1075) * 2 ^ 53 + mantissa' := by
  rw [Ordering.then_eq_lt, Int.compare_eq_lt, Int.compare_eq_eq, Nat.compare_eq_lt]
  omega

theorem then_eq_gt_iff {exponent exponent' : Int} {mantissa mantissa' : Nat} (h : mantissa < 2 ^ 53)
    (h' : mantissa' < 2 ^ 53) :
    (compare exponent exponent').then (compare mantissa mantissa') = .gt ↔
      (exponent' + 1075) * 2 ^ 53 + mantissa' < (exponent + 1075) * 2 ^ 53 + mantissa := by
  rw [Ordering.then_eq_gt, Int.compare_eq_gt, Int.compare_eq_eq, Nat.compare_eq_gt]
  omega

section Magnitude

variable {sign : Sign} {mantissa : Nat} {exponent : Int} {hpos : 0 < mantissa}

theorem rank_positive (h : Canonical (.finite .positive mantissa exponent hpos)) :
    0 < rank (.finite .positive mantissa exponent hpos) ∧
      rank (.finite .positive mantissa exponent hpos) < 2 ^ 64 := by
  obtain ⟨hmantissa, hleast, hmost, -⟩ := h
  show 0 < (exponent + 1075) * 2 ^ 53 + (mantissa : Int) ∧ (exponent + 1075) * 2 ^ 53 + (mantissa : Int) < 2 ^ 64
  omega

theorem rank_negative (h : Canonical (.finite .negative mantissa exponent hpos)) :
    -2 ^ 64 < rank (.finite .negative mantissa exponent hpos) ∧
      rank (.finite .negative mantissa exponent hpos) < 0 := by
  have hopposite : Canonical (.finite .positive mantissa exponent hpos) := h
  obtain ⟨hless, hmost⟩ := rank_positive hopposite
  exact ⟨Int.neg_lt_neg hmost, Int.neg_neg_of_pos hless⟩

/-- Numbers lie between the infinities. -/
theorem rank_finite (h : Canonical (.finite sign mantissa exponent hpos)) :
    -2 ^ 64 < rank (.finite sign mantissa exponent hpos) ∧ rank (.finite sign mantissa exponent hpos) < 2 ^ 64 := by
  cases sign with
  | negative => exact ⟨(rank_negative h).1, Int.lt_trans (rank_negative h).2 (by decide)⟩
  | positive => exact ⟨Int.lt_trans (by decide) (rank_positive h).1, (rank_positive h).2⟩

/-- Numbers of one sign are compared by their exponents first, and their mantissas have 53 bits each. -/
theorem compare_finite_iff {other : Sign} {mantissa' : Nat} {exponent' : Int} {hpos' : 0 < mantissa'}
    (h : Canonical (.finite sign mantissa exponent hpos)) (h' : Canonical (.finite other mantissa' exponent' hpos')) :
    (UnpackedFloat.finite sign mantissa exponent hpos).compare (.finite other mantissa' exponent' hpos') = some .lt ↔
      rank (.finite sign mantissa exponent hpos) < rank (.finite other mantissa' exponent' hpos') := by
  have hmantissa : mantissa < 2 ^ 53 := h.1
  have hmantissa' : mantissa' < 2 ^ 53 := h'.1
  cases sign with
  | negative => cases other with
    | negative =>
        show some ((compare exponent exponent').then (compare mantissa mantissa')).swap = some .lt ↔
          -((exponent + 1075) * 2 ^ 53 + (mantissa : Int)) < -((exponent' + 1075) * 2 ^ 53 + (mantissa' : Int))
        rw [Option.some_inj, Ordering.swap_eq_lt, then_eq_gt_iff hmantissa hmantissa', Int.neg_lt_neg_iff]
    | positive => exact iff_of_true rfl (Int.lt_trans (rank_negative h).2 (rank_positive h').1)
  | positive => cases other with
    | negative =>
        have hless := Int.lt_trans (rank_negative h').2 (rank_positive h).1
        exact iff_of_false (by rintro ⟨⟩) (Int.not_lt.mpr (Int.le_of_lt hless))
    | positive =>
        show some ((compare exponent exponent').then (compare mantissa mantissa')) = some .lt ↔
          (exponent + 1075) * 2 ^ 53 + (mantissa : Int) < (exponent' + 1075) * 2 ^ 53 + (mantissa' : Int)
        rw [Option.some_inj, then_eq_lt_iff hmantissa hmantissa']

end Magnitude

/-- **The order is that of the ranks.** -/
theorem lt_iff_rank {x y : UnpackedFloat} (hx : Canonical x) (hy : Canonical y) :
    x.lt y = true ↔ x ≠ .notANumber ∧ y ≠ .notANumber ∧ rank x < rank y := by
  unfold UnpackedFloat.lt
  rw [beq_iff_eq]
  by_cases hnone : x = .notANumber
  · subst hnone
    exact iff_of_false (by rintro ⟨⟩) fun h => h.1 rfl
  by_cases hnone' : y = .notANumber
  · subst hnone'
    exact iff_of_false (by cases x <;> rintro ⟨⟩) fun h => h.2.1 rfl
  rw [and_iff_right hnone, and_iff_right hnone']
  cases x with
  | notANumber => exact absurd rfl hnone
  | infinity sign =>
      cases y with
      | notANumber => exact absurd rfl hnone'
      | infinity other | zero other => cases sign <;> cases other <;> decide
      | finite other mantissa exponent hpos => cases sign with
        | negative => exact iff_of_true rfl (rank_finite hy).1
        | positive => exact iff_of_false (by rintro ⟨⟩) (Int.not_lt.mpr (Int.le_of_lt (rank_finite hy).2))
  | zero sign =>
      cases y with
      | notANumber => exact absurd rfl hnone'
      | infinity other | zero other => cases sign <;> cases other <;> decide
      | finite other mantissa exponent hpos => cases other with
        | negative => exact iff_of_false (by rintro ⟨⟩) (Int.not_lt.mpr (Int.le_of_lt (rank_negative hy).2))
        | positive => exact iff_of_true rfl (rank_positive hy).1
  | finite sign mantissa exponent hpos =>
      cases y with
      | notANumber => exact absurd rfl hnone'
      | infinity other => cases other with
        | negative => exact iff_of_false (by rintro ⟨⟩) (Int.not_lt.mpr (Int.le_of_lt (rank_finite hx).1))
        | positive => exact iff_of_true rfl (rank_finite hx).2
      | zero other => cases sign with
        | negative => exact iff_of_true rfl (rank_negative hx).2
        | positive => exact iff_of_false (by rintro ⟨⟩) (Int.not_lt.mpr (Int.le_of_lt (rank_positive hx).1))
      | finite other mantissa' exponent' hpos' => exact compare_finite_iff hx hy

/-! ## Rounding -/

/-- The mantissa with its residual bits is at most the bound. -/
def AtMost (extended : ExtendedMantissa) (bound : Nat) : Prop :=
  extended.mantissa < bound ∨
    extended.mantissa = bound ∧ extended.roundBit = false ∧ extended.stickyBit = false

theorem AtMost.shiftRightOne {extended : ExtendedMantissa} {bound : Nat} (h : AtMost extended (2 * bound)) :
    AtMost extended.shiftRightOne bound := by
  unfold ExtendedMantissa.shiftRightOne
  rcases h with hless | ⟨heq, hround, hsticky⟩
  · refine .inl ?_
    show extended.mantissa / 2 < bound
    omega
  · refine .inr ⟨?_, ?_, ?_⟩
    · show extended.mantissa / 2 = bound
      omega
    · rw [heq, bne_eq_false_iff_eq]
      omega
    · rw [hround, hsticky]
      rfl

theorem AtMost.shiftRight {extended : ExtendedMantissa} {shift bound : Nat}
    (h : AtMost extended (2 ^ shift * bound)) : AtMost (extended >>> shift) bound := by
  induction shift generalizing bound with
  | zero =>
      rw [Nat.pow_zero, Nat.one_mul] at h
      exact h
  | succ shift ih =>
      rw [Nat.pow_succ, Nat.mul_assoc] at h
      exact (ih h).shiftRightOne

theorem mantissa_shiftRight (extended : ExtendedMantissa) (shift : Nat) :
    (extended >>> shift).mantissa = extended.mantissa / 2 ^ shift := by
  induction shift with
  | zero => exact (Nat.div_one _).symm
  | succ shift ih =>
      show (extended >>> shift).mantissa / 2 = _
      rw [ih, Nat.div_div_eq_div_mul, Nat.pow_succ]

theorem le_roundedMantissa (extended : ExtendedMantissa) : extended.mantissa ≤ extended.roundedMantissa := by
  obtain ⟨mantissa, round, sticky⟩ := extended
  cases round <;> cases sticky <;>
    simp [ExtendedMantissa.roundedMantissa, ExtendedMantissa.accuracy, Accuracy.roundToNearestEven]

/-- **Rounding respects a bound** that is a whole number of units. -/
theorem AtMost.roundedMantissa_le {extended : ExtendedMantissa} {bound : Nat} (h : AtMost extended bound) :
    extended.roundedMantissa ≤ bound := by
  obtain ⟨mantissa, round, sticky⟩ := extended
  unfold AtMost at h
  cases round <;> cases sticky <;>
    simp [ExtendedMantissa.roundedMantissa, ExtendedMantissa.accuracy, Accuracy.roundToNearestEven] at h ⊢ <;>
    omega

/-- The least exponent at which a number has a mantissa of 53 bits at most. -/
def leastExponent (mantissa : Nat) (exponent : Int) : Int := max (mantissa.log2 + exponent - 52) (-1074)

theorem targetExponent_eq (mantissa : Nat) (exponent : Int) :
    Format.binary64.targetExponent (totalExponent mantissa exponent) = leastExponent mantissa exponent := by
  unfold Format.targetExponent totalExponent leastExponent
  rw [show Format.binary64.minExponent = -1074 from rfl, show Format.binary64.mantissaBits = 53 from rfl]
  omega

theorem leastExponent_of_lt {mantissa : Nat} {exponent : Int} (h : mantissa < 2 ^ 53) (hexponent : -1074 ≤ exponent) :
    leastExponent mantissa exponent ≤ exponent := by
  have hlog : mantissa.log2 ≤ 52 := by
    rcases Nat.eq_zero_or_pos mantissa with rfl | hpos
    · decide
    · exact Nat.le_of_lt_succ ((Nat.log2_lt (by omega)).mpr h)
  unfold leastExponent
  omega

/-- The mantissa in units that are larger by a power of two, rounded. -/
def roundedAt (mantissa shift : Nat) : Nat := (ExtendedMantissa.mk mantissa false false >>> shift).roundedMantissa

theorem roundedAt_le {mantissa shift bound : Nat} (h : mantissa ≤ 2 ^ shift * bound) :
    roundedAt mantissa shift ≤ bound := by
  refine AtMost.roundedMantissa_le (AtMost.shiftRight ?_)
  rcases Nat.lt_or_eq_of_le h with hless | heq
  · exact .inl hless
  · exact .inr ⟨heq, rfl, rfl⟩

theorem le_roundedAt {mantissa shift bound : Nat} (h : bound * 2 ^ shift ≤ mantissa) :
    bound ≤ roundedAt mantissa shift := by
  refine Nat.le_trans ?_ (le_roundedMantissa _)
  rw [mantissa_shiftRight]
  exact (Nat.le_div_iff_mul_le (Nat.two_pow_pos shift)).mpr h

theorem shiftToTargetExponent_exact (mantissa : Nat) (exponent : Int) :
    let shift := (leastExponent mantissa exponent - exponent).toNat
    shiftToTargetExponent .binary64 mantissa exponent .exact
      = (ExtendedMantissa.mk mantissa false false >>> shift, exponent + shift) := by
  unfold shiftToTargetExponent shiftToExponent
  rw [targetExponent_eq]
  rfl

theorem le_two_pow_leastExponent (mantissa : Nat) (exponent : Int) :
    mantissa ≤ 2 ^ (leastExponent mantissa exponent - exponent).toNat * 2 ^ 53 := by
  have hshift : mantissa.log2 + 1 ≤ (leastExponent mantissa exponent - exponent).toNat + 53 := by
    unfold leastExponent
    omega
  rw [← Nat.pow_add]
  exact Nat.le_trans (Nat.le_of_lt Nat.lt_log2_self) (Nat.pow_le_pow_right (by omega) hshift)

/-- Rounding shifts, rounds and shifts once more, since the rounded mantissa may be too long. -/
theorem roundWithAccuracy_eq (sign : Sign) {mantissa rounded again : Nat} {exponent target : Int}
    (htarget : leastExponent mantissa exponent = target) (hexponent : exponent ≤ target)
    (hrounded : roundedAt mantissa (target - exponent).toNat = rounded)
    (hagain : (leastExponent rounded target - target).toNat = again) :
    roundWithAccuracy .binary64 sign mantissa exponent .exact =
      let final := (ExtendedMantissa.mk rounded false false >>> again).mantissa
      if h : final = 0 then .zero sign else .finite sign final (target + again) (Nat.pos_of_ne_zero h) := by
  subst htarget hrounded hagain
  have hunits : exponent + ((leastExponent mantissa exponent - exponent).toNat : Int)
      = leastExponent mantissa exponent := by omega
  unfold roundWithAccuracy
  rw [shiftToTargetExponent_exact]
  dsimp only
  rw [hunits, show (ExtendedMantissa.mk mantissa false false
    >>> (leastExponent mantissa exponent - exponent).toNat).roundedMantissa = roundedAt mantissa _ from rfl,
    shiftToTargetExponent_exact]

/-- **What rounding yields**, for a number that is given in small enough units. A mantissa that is rounded up to
    54 bits becomes one of 53 again. -/
theorem roundWithAccuracy_exact (sign : Sign) {mantissa rounded : Nat} {exponent target : Int}
    (htarget : leastExponent mantissa exponent = target) (hexponent : exponent ≤ target)
    (hrounded : roundedAt mantissa (target - exponent).toNat = rounded) :
    rounded = 0 ∧ roundWithAccuracy .binary64 sign mantissa exponent .exact = .zero sign ∨
      (∃ hpos, rounded < 2 ^ 53 ∧
        roundWithAccuracy .binary64 sign mantissa exponent .exact = .finite sign rounded target hpos) ∨
      ∃ hpos, rounded = 2 ^ 53 ∧
        roundWithAccuracy .binary64 sign mantissa exponent .exact = .finite sign (2 ^ 52) (target + 1) hpos := by
  have hleast : -1074 ≤ target := htarget ▸ Int.le_max_right _ _
  have hmost : rounded ≤ 2 ^ 53 := by
    rw [← hrounded, ← htarget]
    exact roundedAt_le (le_two_pow_leastExponent mantissa exponent)
  rcases Nat.lt_or_eq_of_le hmost with hless | heq
  · -- the second shift has nothing to do
    have hnone : (leastExponent rounded target - target).toNat = 0 := by
      have := leastExponent_of_lt hless hleast
      omega
    have hresult : roundWithAccuracy .binary64 sign mantissa exponent .exact = if h : rounded = 0 then .zero sign
        else .finite sign rounded (target + (0 : Nat)) (Nat.pos_of_ne_zero h) :=
      roundWithAccuracy_eq sign htarget hexponent hrounded hnone
    by_cases hzero : rounded = 0
    · rw [dif_pos hzero] at hresult
      exact .inl ⟨hzero, hresult⟩
    · rw [dif_neg hzero, Int.natCast_zero, Int.add_zero] at hresult
      exact .inr (.inl ⟨_, hless, hresult⟩)
  · have hone : (leastExponent (2 ^ 53) target - target).toNat = 1 := by
      unfold leastExponent
      rw [Nat.log2_two_pow]
      omega
    exact .inr (.inr ⟨by decide, heq,
      roundWithAccuracy_eq sign htarget hexponent (hrounded.trans heq) hone⟩)

theorem log2_mul_two_pow {mantissa : Nat} (h : 0 < mantissa) (shift : Nat) :
    (mantissa * 2 ^ shift).log2 = mantissa.log2 + shift := by
  induction shift with
  | zero => rw [Nat.pow_zero, Nat.mul_one, Nat.add_zero]
  | succ shift ih =>
      have hpos : 0 < mantissa * 2 ^ shift := Nat.mul_pos h (Nat.two_pow_pos shift)
      rw [Nat.pow_succ, ← Nat.mul_assoc, Nat.mul_comm _ 2, Nat.log2_two_mul (by omega), ih, Nat.add_assoc]

/-- A number in units that are too large is first given in smaller ones, which changes nothing about where it is
    rounded. -/
theorem round_eq_roundWithAccuracy (sign : Sign) {mantissa : Nat} (h : 0 < mantissa) (exponent : Int) :
    ∃ (smaller : Nat) (finer : Int),
      (smaller : Int) = exponent - finer ∧ finer ≤ leastExponent mantissa exponent ∧
      leastExponent (mantissa * 2 ^ smaller) finer = leastExponent mantissa exponent ∧
      round .binary64 sign mantissa exponent
        = roundWithAccuracy .binary64 sign (mantissa * 2 ^ smaller) finer .exact := by
  let smaller := (exponent - leastExponent mantissa exponent).toNat
  have hleast : leastExponent (mantissa * 2 ^ smaller) (exponent - smaller) = leastExponent mantissa exponent := by
    unfold leastExponent
    rw [log2_mul_two_pow h]
    omega
  refine ⟨smaller, exponent - smaller, by omega, by omega, hleast, ?_⟩
  unfold UnpackedFloat.round decreaseExponent
  rw [targetExponent_eq, ← Nat.shiftLeft_eq]

section Bounds

variable {mantissa bound : Nat} {exponent place : Int}

/-- A number is rounded at the place of a bound of 53 bits, or further to the right. -/
theorem leastExponent_le (hpos : 0 < mantissa) (hbound : bound < 2 ^ 53) (hplace : exponent ≤ place)
    (hexponent : -1074 ≤ exponent) (h : mantissa ≤ bound * 2 ^ (place - exponent).toNat) :
    leastExponent mantissa exponent ≤ place := by
  have hless : mantissa.log2 < 53 + (place - exponent).toNat := by
    rw [← Nat.pow_lt_pow_iff_right (show 1 < 2 by omega), Nat.pow_add]
    exact Nat.lt_of_le_of_lt (Nat.le_trans (Nat.log2_self_le (Nat.ne_of_gt hpos)) h)
      (Nat.mul_lt_mul_of_pos_right hbound (Nat.two_pow_pos _))
  unfold leastExponent
  omega

/-- A rounded mantissa has its leading bit, unless the exponent is the least there is. -/
theorem normal_roundedAt (hpos : 0 < mantissa) {smaller : Nat} {finer : Int}
    (hsmaller : (smaller : Int) = exponent - finer) (hfiner : finer ≤ leastExponent mantissa exponent) :
    2 ^ 52 ≤ roundedAt (mantissa * 2 ^ smaller) (leastExponent mantissa exponent - finer).toNat ∨
      leastExponent mantissa exponent = -1074 := by
  by_cases hleast : leastExponent mantissa exponent = -1074
  · exact .inr hleast
  · have htarget : leastExponent mantissa exponent = mantissa.log2 + exponent - 52 := by
      unfold leastExponent at hleast ⊢
      omega
    refine .inl (le_roundedAt ?_)
    rw [← Nat.pow_add, show 52 + (leastExponent mantissa exponent - finer).toNat = mantissa.log2 + smaller by omega,
      Nat.pow_add]
    exact Nat.mul_le_mul_right _ (Nat.log2_self_le (Nat.ne_of_gt hpos))

/-- **Rounding does not cross a number** that needs no rounding itself: what was at most that number still is. -/
theorem round_atMost (hpos : 0 < mantissa) (hbound : bound < 2 ^ 53) (hmost : place ≤ 971)
    (hplace : exponent ≤ place) (hexponent : -1074 ≤ exponent)
    (h : mantissa ≤ bound * 2 ^ (place - exponent).toNat) :
    Canonical (round .binary64 .positive mantissa exponent) ∧
      rank (round .binary64 .positive mantissa exponent) ≤ (place + 1075) * 2 ^ 53 + bound := by
  obtain ⟨smaller, finer, hsmaller, hfiner, hsame, hround⟩ :=
    round_eq_roundWithAccuracy .positive hpos exponent
  have hnormal := normal_roundedAt hpos hsmaller hfiner
  have hhigh := leastExponent_le hpos hbound hplace hexponent h
  have hlow : -1074 ≤ leastExponent mantissa exponent := Int.le_max_right _ _
  have hyields := roundWithAccuracy_exact .positive hsame hfiner rfl
  generalize leastExponent mantissa exponent = target at *
  set rounded := roundedAt (mantissa * 2 ^ smaller) (target - finer).toNat
  have hrounded : rounded ≤ bound * 2 ^ (place - target).toNat := by
    refine roundedAt_le ?_
    rw [Nat.mul_left_comm, ← Nat.pow_add, show (target - finer).toNat + (place - target).toNat
      = (place - exponent).toNat + smaller by omega, Nat.pow_add, ← Nat.mul_assoc]
    exact Nat.mul_le_mul_right _ h
  rw [hround]
  rcases hyields with ⟨-, hresult⟩ | ⟨_, hless, hresult⟩ | ⟨_, heq, hresult⟩ <;> rw [hresult]
  · refine ⟨trivial, ?_⟩
    show (0 : Int) ≤ _
    omega
  · refine ⟨⟨hless, hlow, by omega, hnormal⟩, ?_⟩
    show (target + 1075) * 2 ^ 53 + (rounded : Int) ≤ _
    rcases Int.lt_or_eq_of_le hhigh with hbelow | rfl
    · omega
    · rw [Int.sub_self, show bound * 2 ^ (0 : Int).toNat = bound from Nat.mul_one bound] at hrounded
      omega
  · have heq : rounded = 2 ^ 53 := heq
    -- the bound has 53 bits only, so that it must stand further to the left
    have hbelow : target < place := by
      rcases Int.lt_or_eq_of_le hhigh with hbelow | rfl
      · exact hbelow
      · rw [Int.sub_self, show bound * 2 ^ (0 : Int).toNat = bound from Nat.mul_one bound] at hrounded
        omega
    refine ⟨⟨by decide, by omega, by omega, .inl (Nat.le_refl _)⟩, ?_⟩
    show (target + 1 + 1075) * 2 ^ 53 + ((2 ^ 52 : Nat) : Int) ≤ _
    rcases Int.lt_or_eq_of_le (Int.add_one_le_of_lt hbelow) with hfar | hnext
    · omega
    · rw [show (place - target).toNat = 1 by omega, heq] at hrounded
      omega

end Bounds

/-! ## Operations -/

theorem isMinus_roundWithAccuracy (sign : Sign) (mantissa : Nat) (exponent : Int) (accuracy : Accuracy) :
    isMinus (roundWithAccuracy .binary64 sign mantissa exponent accuracy) = (sign == .negative) := by
  unfold roundWithAccuracy
  dsimp only
  by_cases hzero : (shiftToTargetExponent .binary64
    (shiftToTargetExponent .binary64 mantissa exponent accuracy).1.roundedMantissa
    (shiftToTargetExponent .binary64 mantissa exponent accuracy).2 .exact).1.mantissa = 0
  · rw [dif_pos hzero]
    rfl
  · rw [dif_neg hzero]
    rfl

theorem isMinus_round (sign : Sign) (mantissa : Nat) (exponent : Int) :
    isMinus (round .binary64 sign mantissa exponent) = (sign == .negative) := isMinus_roundWithAccuracy _ _ _ _

theorem isMinus_normalize {mantissa : Int} (h : 0 ≤ mantissa) (exponent : Int) :
    isMinus (normalize .binary64 mantissa exponent .positive) = false := by
  unfold UnpackedFloat.normalize
  split
  · rename_i hless
    rw [Int.compare_eq_lt] at hless
    omega
  · rfl
  · exact isMinus_round _ _ _

section Unpacked

variable {x y : UnpackedFloat}

/-- The numbers whose sign bit is clear. -/
inductive Plus : UnpackedFloat → Prop where
  | notANumber : Plus .notANumber
  | infinity : Plus (.infinity .positive)
  | zero : Plus (.zero .positive)
  | finite (mantissa : Nat) (exponent : Int) (hpos : 0 < mantissa) :
      Plus (.finite .positive mantissa exponent hpos)

theorem plus_of_isMinus (h : isMinus x = false) : Plus x := by
  cases x with
  | notANumber => exact .notANumber
  | infinity sign => cases sign with
    | negative => cases h
    | positive => exact .infinity
  | zero sign => cases sign with
    | negative => cases h
    | positive => exact .zero
  | finite sign mantissa exponent hpos => cases sign with
    | negative => cases h
    | positive => exact .finite mantissa exponent hpos

theorem isMinus_add (hx : Plus x) (hy : Plus y) : isMinus (UnpackedFloat.add .binary64 x y) = false := by
  cases hx with
  | notANumber => rfl
  | infinity | zero => cases hy <;> rfl
  | finite mantissa exponent hpos =>
      cases hy with
      | notANumber | infinity | zero => rfl
      | finite mantissa' exponent' hpos' =>
          exact isMinus_normalize (Int.add_nonneg (Int.natCast_nonneg _) (Int.natCast_nonneg _)) _

theorem isMinus_mul (hx : Plus x) (hy : Plus y) : isMinus (UnpackedFloat.mul .binary64 x y) = false := by
  cases hx with
  | notANumber => rfl
  | infinity | zero => cases hy <;> rfl
  | finite mantissa exponent hpos =>
      cases hy with
      | notANumber | infinity | zero => rfl
      | finite mantissa' exponent' hpos' => exact isMinus_roundWithAccuracy _ _ _ _

theorem isMinus_div (hx : Plus x) (hy : Plus y) : isMinus (UnpackedFloat.div .binary64 x y) = false := by
  cases hx with
  | notANumber => rfl
  | infinity | zero => cases hy <;> rfl
  | finite mantissa exponent hpos =>
      cases hy with
      | notANumber | infinity | zero => rfl
      | finite mantissa' exponent' hpos' => exact isMinus_roundWithAccuracy _ _ _ _

theorem isMinus_abs (x : UnpackedFloat) : isMinus x.abs = false := by
  cases x <;> rfl

theorem isMinus_ite {condition : Prop} [Decidable condition] (hx : isMinus x = false) (hy : isMinus y = false) :
    isMinus (if condition then x else y) = false := by
  split
  · exact hx
  · exact hy

theorem isMinus_ofScientific (mantissa : Nat) (exponent : Int) :
    isMinus (UnpackedFloat.ofScientific .binary64 mantissa exponent) = false := by
  unfold UnpackedFloat.ofScientific
  by_cases hzero : mantissa = 0
  · rw [dif_pos hzero]
    rfl
  · rw [dif_neg hzero]
    refine isMinus_ite rfl (isMinus_ite rfl (isMinus_ite ?_ ?_))
    · exact isMinus_mul (.finite _ _ _) (.finite _ _ _)
    · exact isMinus_div (.finite _ _ _) (.finite _ _ _)

theorem rank_nonpos (hx : Canonical x) (h : isMinus x = true) : rank x ≤ 0 := by
  cases x with
  | notANumber => exact Int.le_refl 0
  | infinity sign => cases sign with
    | negative => decide
    | positive => cases h
  | zero sign => exact Int.le_refl 0
  | finite sign mantissa exponent hpos => cases sign with
    | negative => exact Int.le_of_lt (rank_negative hx).2
    | positive => cases h

/-- A difference that is at most a number does not pass it when it is rounded and packed. -/
theorem rank_normalize_le {mantissa : Nat} {difference place exponent : Int} (hmantissa : mantissa < 2 ^ 53)
    (hleast : -1074 ≤ place) (hplace : place ≤ exponent) (hmost : exponent ≤ 971)
    (h : difference ≤ (mantissa * 2 ^ (exponent - place).toNat : Nat)) :
    rank (unpack .binary64 (pack .binary64 (normalize .binary64 difference place .positive)))
      ≤ (exponent + 1075) * 2 ^ 53 + mantissa := by
  have hnonneg : 0 ≤ (exponent + 1075) * 2 ^ 53 + (mantissa : Int) := by omega
  unfold UnpackedFloat.normalize
  split
  · refine Int.le_trans (rank_nonpos (canonical_unpack _) ?_) hnonneg
    rw [isMinus_unpack_pack, isMinus_round]
    rfl
  · exact hnonneg
  · rename_i hgreater
    rw [Int.compare_eq_gt] at hgreater
    obtain ⟨hcanonical, hrank⟩ := round_atMost (show 0 < difference.toNat by omega) hmantissa hmost hplace hleast
      (by omega)
    rw [unpack_pack hcanonical]
    exact hrank

/-- What packing and unpacking makes of a difference of finite numbers. -/
theorem rank_sub_finite {mantissa mantissa' : Nat} {exponent exponent' : Int} (hpos : 0 < mantissa)
    (hpos' : 0 < mantissa') (hx : Canonical (.finite .positive mantissa exponent hpos))
    (hy : Canonical (.finite .positive mantissa' exponent' hpos')) :
    rank (unpack .binary64 (pack .binary64 (UnpackedFloat.sub .binary64
      (.finite .positive mantissa exponent hpos) (.finite .positive mantissa' exponent' hpos'))))
      ≤ rank (.finite .positive mantissa exponent hpos) := by
  obtain ⟨hmantissa, hleast, hmost, -⟩ := hx
  obtain ⟨-, hleast', -, -⟩ := hy
  -- both are brought to the smaller of the exponents, and their difference is rounded from there
  let place := min exponent exponent'
  obtain ⟨difference, hdifference⟩ : ∃ difference : Int, difference
      = (mantissa * 2 ^ (exponent - place).toNat : Nat) - (mantissa' * 2 ^ (exponent' - place).toNat : Nat) :=
    ⟨_, rfl⟩
  have hsub : UnpackedFloat.sub .binary64 (.finite .positive mantissa exponent hpos)
      (.finite .positive mantissa' exponent' hpos') = normalize .binary64 difference place .positive := by
    rw [hdifference, ← Nat.shiftLeft_eq, ← Nat.shiftLeft_eq]
    rfl
  rw [hsub]
  exact rank_normalize_le hmantissa (show -1074 ≤ place by omega) (Int.min_le_left _ _) hmost (by omega)

/-- **Taking away what has no sign leaves no more**, unless nothing comparable is left. -/
theorem rank_sub_le (hx : Canonical x) (hy : Canonical y) (hplus : Plus x) (hplus' : Plus y) :
    let difference := unpack .binary64 (pack .binary64 (UnpackedFloat.sub .binary64 x y))
    difference = .notANumber ∨ x ≠ .notANumber ∧ rank difference ≤ rank x := by
  have hpacked {z : UnpackedFloat} (h : UnpackedFloat.sub .binary64 x y = z) (hz : Canonical z) :
      unpack .binary64 (pack .binary64 (UnpackedFloat.sub .binary64 x y)) = z := by
    rw [h, unpack_pack hz]
  have hnone (h : UnpackedFloat.sub .binary64 x y = .notANumber) :
      unpack .binary64 (pack .binary64 (UnpackedFloat.sub .binary64 x y)) = .notANumber := hpacked h trivial
  cases hplus with
  | notANumber => exact .inl (hnone (by cases hplus' <;> rfl))
  | infinity =>
      cases hplus' with
      | notANumber | infinity => exact .inl (hnone rfl)
      | zero => exact .inr ⟨nofun, Int.le_of_eq (congrArg rank (hpacked rfl hx))⟩
      | finite => exact .inr ⟨nofun, Int.le_of_eq (congrArg rank (hpacked rfl hx))⟩
  | zero =>
      cases hplus' with
      | notANumber => exact .inl (hnone rfl)
      | infinity => exact .inr ⟨nofun, by decide⟩
      | zero => exact .inr ⟨nofun, Int.le_of_eq (congrArg rank (hpacked rfl hx))⟩
      | finite mantissa exponent hpos =>
          refine .inr ⟨nofun, rank_nonpos (canonical_unpack _) ?_⟩
          rw [isMinus_unpack_pack]
          rfl
  | finite mantissa exponent hpos =>
      cases hplus' with
      | notANumber => exact .inl (hnone rfl)
      | infinity =>
          refine .inr ⟨nofun, Int.le_trans (rank_nonpos (canonical_unpack _) ?_) (Int.le_of_lt (rank_positive hx).1)⟩
          rw [isMinus_unpack_pack]
          rfl
      | zero => exact .inr ⟨nofun, Int.le_of_eq (congrArg rank (hpacked rfl hx))⟩
      | finite mantissa' exponent' hpos' => exact .inr ⟨nofun, rank_sub_finite hpos hpos' hx hy⟩

end Unpacked

/-! ## Numbers without a sign -/

/-- The sign bit is clear. -/
def Unsigned (x : Float) : Prop := isMinus x.toModel.unpack = false

instance (x : Float) : Decidable (Unsigned x) := inferInstanceAs (Decidable (_ = _))

theorem canonical (x : Float) : Canonical x.toModel.unpack := canonical_unpack _

theorem Unsigned.plus {x : Float} (h : Unsigned x) : Plus x.toModel.unpack := plus_of_isMinus h

theorem Unsigned.add {x y : Float} (hx : Unsigned x) (hy : Unsigned y) : Unsigned (x + y) :=
  (isMinus_unpack_pack _).trans (isMinus_add hx.plus hy.plus)

theorem Unsigned.mul {x y : Float} (hx : Unsigned x) (hy : Unsigned y) : Unsigned (x * y) :=
  (isMinus_unpack_pack _).trans (isMinus_mul hx.plus hy.plus)

theorem Unsigned.div {x y : Float} (hx : Unsigned x) (hy : Unsigned y) : Unsigned (x / y) :=
  (isMinus_unpack_pack _).trans (isMinus_div hx.plus hy.plus)

theorem unsigned_abs (x : Float) : Unsigned x.abs :=
  (isMinus_unpack_pack _).trans (isMinus_abs _)

theorem unsigned_toFloat (n : UInt64) : Unsigned n.toFloat :=
  (isMinus_unpack_pack _).trans (isMinus_normalize (Int.natCast_nonneg _) _)

theorem unsigned_ofNat (n : Nat) : Unsigned (Float.ofNat n) := by
  unfold Float.ofNat
  show Unsigned (Float.ofScientific n false 0)
  unfold Float.ofScientific
  split
  · exact (unsigned_toFloat _).mul (by decide : Unsigned (Float.ofBits 0x3FF0000000000000))
  · exact (isMinus_unpack_pack _).trans (isMinus_ofScientific _ _)

theorem unsigned_countRatio (part whole : Nat) : Unsigned (countRatio part whole) :=
  (unsigned_ofNat part).div (unsigned_ofNat whole)

theorem lt_iff (x y : Float) : x < y ↔ x.toModel.unpack.lt y.toModel.unpack = true :=
  ⟨fun h => of_decide_eq_true h, fun h => decide_eq_true h⟩

/-- **A number below a difference is below what it was taken from.** -/
theorem lt_of_lt_sub {x y z : Float} (hy : Unsigned y) (hz : Unsigned z) (h : x < y - z) : x < y := by
  rw [lt_iff] at h ⊢
  obtain ⟨hnumber, hdifference, hless⟩ := (lt_iff_rank (canonical x) (canonical_unpack _)).mp h
  rcases rank_sub_le (canonical y) (canonical z) hy.plus hz.plus with hnone | ⟨hsome, hrank⟩
  · exact absurd hnone hdifference
  · exact (lt_iff_rank (canonical x) (canonical y)).mpr ⟨hnumber, hsome, Int.lt_of_lt_of_le hless hrank⟩

/-! ## Extremes -/

theorem isNaN_eq_false_iff (x : Float) : x.isNaN = false ↔ x.toModel.unpack ≠ .notANumber := by
  show x.toModel.unpack.isNaN = false ↔ _
  cases x.toModel.unpack with
  | notANumber => exact iff_of_false (by rintro ⟨⟩) (not_not_intro rfl)
  | infinity | zero | finite => exact iff_of_true rfl (by rintro ⟨⟩)

/-- The order of floats is that of their ranks, but for NaNs. -/
theorem lt_iff_isNaN (x y : Float) :
    x < y ↔ x.isNaN = false ∧ y.isNaN = false ∧ rank x.toModel.unpack < rank y.toModel.unpack := by
  rw [lt_iff, lt_iff_rank (canonical x) (canonical y), isNaN_eq_false_iff, isNaN_eq_false_iff]

/-- The better of two floats. A NaN loses against every number, and of two that tie the first one is kept. -/
def pick (better : Float → Float → Prop) [DecidableRel better] (a b : Float) : Float :=
  if a.isNaN then b else if better b a then b else a

section Pick

variable {better : Float → Float → Prop} [DecidableRel better] {key : Float → Int}

theorem pick_eq_or (a b : Float) : pick better a b = a ∨ pick better a b = b := by
  unfold pick
  split
  · exact .inr rfl
  · split
    · exact .inr rfl
    · exact .inl rfl

variable (hbetter : ∀ x y, better x y ↔ x.isNaN = false ∧ y.isNaN = false ∧ key x < key y)

include hbetter

/-- What is better than one of two floats is better than the one that is picked. -/
theorem better_pick {a b best : Float} (h : better a best ∨ better b best) : better (pick better a b) best := by
  unfold pick
  split
  · rename_i hnan
    rcases h with ha | hb
    · rw [((hbetter a best).mp ha).1] at hnan
      cases hnan
    · exact hb
  · rename_i hnumber
    split
    · rename_i hless
      rcases h with ha | hb
      · obtain ⟨hnumber, -, hkey⟩ := (hbetter b a).mp hless
        obtain ⟨-, hbest, hkey'⟩ := (hbetter a best).mp ha
        exact (hbetter b best).mpr ⟨hnumber, hbest, Int.lt_trans hkey hkey'⟩
      · exact hb
    · rename_i hnot
      rcases h with ha | hb
      · exact ha
      · obtain ⟨hnumber', hbest, hkey⟩ := (hbetter b best).mp hb
        have ha : a.isNaN = false := Bool.not_eq_true _ ▸ hnumber
        have hkey' : ¬key b < key a := fun hless => hnot ((hbetter b a).mpr ⟨hnumber', ha, hless⟩)
        exact (hbetter a best).mpr ⟨ha, hbest, by omega⟩

/-- **Picking along a list finds one of its floats that no other is better than.** -/
theorem foldl_pick (first : Float) (rest : List Float) :
    rest.foldl (pick better) first ∈ first :: rest ∧
      ∀ x ∈ first :: rest, ¬better x (rest.foldl (pick better) first) := by
  induction rest generalizing first with
  | nil =>
      refine ⟨List.mem_cons_self, fun x hmem hless => ?_⟩
      obtain rfl := List.mem_singleton.mp hmem
      exact absurd ((hbetter x x).mp hless).2.2 (Int.lt_irrefl _)
  | cons next rest ih =>
      obtain ⟨hmem, hbest⟩ := ih (pick better first next)
      have hpicked := hbest _ List.mem_cons_self
      rw [List.foldl_cons]
      constructor
      · rcases List.mem_cons.mp hmem with heq | hrest
        · rw [heq]
          rcases @pick_eq_or better _ first next with hpick | hpick <;> rw [hpick] <;> simp
        · exact List.mem_cons_of_mem _ (List.mem_cons_of_mem _ hrest)
      · intro x hx
        rcases List.mem_cons.mp hx with rfl | hx
        · exact fun hless => hpicked (better_pick hbetter (.inl hless))
        · rcases List.mem_cons.mp hx with rfl | hx
          · exact fun hless => hpicked (better_pick hbetter (.inr hless))
          · exact hbest x (List.mem_cons_of_mem _ hx)

end Pick

/-- **The least of some floats** is one of them, and none of them is less. -/
theorem foldl_floatMin (first : Float) (rest : List Float) :
    rest.foldl floatMin first ∈ first :: rest ∧ ∀ x ∈ first :: rest, ¬x < rest.foldl floatMin first :=
  foldl_pick lt_iff_isNaN first rest

/-- **The greatest of some floats** is one of them, and none of them is greater. -/
theorem foldl_floatMax (first : Float) (rest : List Float) :
    rest.foldl floatMax first ∈ first :: rest ∧ ∀ x ∈ first :: rest, ¬rest.foldl floatMax first < x := by
  have hgreater (x y : Float) :
      y < x ↔ x.isNaN = false ∧ y.isNaN = false ∧ -rank x.toModel.unpack < -rank y.toModel.unpack := by
    rw [lt_iff_isNaN, Int.neg_lt_neg_iff, and_left_comm]
  exact @foldl_pick (fun x y => y < x) _ _ hgreater first rest

end FloatOrder

end SnapshotArchive

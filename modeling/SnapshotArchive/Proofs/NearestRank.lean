import Mathlib.Data.List.GetD
import Mathlib.Data.List.Pairwise
import SnapshotArchive.Proofs.FloatFractions
import SnapshotArchive.Statistics

/-!
# `Proofs.NearestRank` — the 90th percentile of the steps of a block

The rank is nine tenths of the number of steps, as floats, and rounded up. The float that stands for nine tenths is a
little greater than they are, so that a product can come out above the whole number that it should be, and rounding up
would then go to the rank behind. It does not: the excess is less than half a unit of the product and is lost when the
product is rounded. What remains is a rank as if of exact numbers (`rank90_le_iff`), and of an ordered list it is known
how many elements do not exceed the one at a rank, and how many are less.

## Contents
- **Nine tenths.** `ceilNat_nineTenths_le_iff`, `rank90_le_iff`.
- **Places in order.** `le_countP_le_getElem`, `countP_lt_getElem_le`.
- **The percentile.** `NinthDecile`, of which a list has one, whatever its order; `ninthDecile_nearestRank90`.
- **Blocks.** `Metrics.stepP90_nearestRank`.
-/

namespace SnapshotArchive

section NineTenths

open FloatOrder

/-! ## Nine tenths -/

/-- The mantissa of the float that stands for nine tenths. It is a fifth of a unit too great. -/
def nineTenths : Nat := 8106479329266893

theorem fraction_nineTenths : Fraction 0.9 nineTenths 53 := ⟨by decide, by decide, by decide, rfl⟩

/-- What is too much about nine tenths is less than half a unit of the product, and a tenth is more than a unit. -/
theorem roundedAt_nineTenths_le_iff {n units shift place : Nat} (hfits : n * 2 ^ units < 2 ^ 53) (hunits : 4 ≤ units)
    (hshift : shift = 52 ∨ shift = 53) (hplace : shift + place = units + 53) (k : Nat) :
    roundedAt (n * 2 ^ units * nineTenths) shift ≤ k * 2 ^ place ↔ 9 * n ≤ 10 * k := by
  have hscale (count : Nat) : count * 2 ^ place * 2 ^ shift = count * 2 ^ units * 2 ^ 53 := by
    rw [Nat.mul_assoc, Nat.mul_assoc, ← Nat.pow_add, ← Nat.pow_add, Nat.add_comm place, hplace]
  have hunit : 2 ^ shift = 2 ^ 52 ∨ 2 ^ shift = 2 ^ 53 := hshift.imp (congrArg _) (congrArg _)
  have hroom : 2 ^ 4 ≤ 2 ^ units := Nat.pow_le_pow_right (by decide) hunits
  have htenths : 10 * (n * 2 ^ units * nineTenths) = 9 * (n * 2 ^ units) * 2 ^ 53 + 2 * (n * 2 ^ units) := by
    unfold nineTenths
    omega
  constructor
  · -- a number that is not enough leaves a tenth at least, which makes more than a unit of the product
    intro hle
    by_contra hgreater
    have hmore : 10 * (k * 2 ^ units) + 2 ^ units ≤ 9 * (n * 2 ^ units) := by
      have hmul := Nat.mul_le_mul_right (2 ^ units) (Nat.succ_le_of_lt (Nat.lt_of_not_le hgreater))
      rw [Nat.succ_mul, Nat.mul_assoc, Nat.mul_assoc] at hmul
      exact hmul
    have hnext : (k * 2 ^ place + 1) * 2 ^ shift ≤ n * 2 ^ units * nineTenths := by
      rw [Nat.succ_mul, hscale]
      omega
    exact absurd (Nat.le_trans (le_roundedAt hnext) hle) (Nat.not_succ_le_self _)
  · -- a number that is enough is exceeded by what the mantissa has too much, which is less than half a unit
    intro hle
    have hmul : 9 * (n * 2 ^ units) ≤ 10 * (k * 2 ^ units) := by
      rw [← Nat.mul_assoc, ← Nat.mul_assoc]
      exact Nat.mul_le_mul_right _ hle
    have hhalf : (2 * (k * 2 ^ place) + 1) * 2 ^ shift = 2 * (k * 2 ^ units * 2 ^ 53) + 2 ^ shift := by
      rw [Nat.succ_mul, Nat.mul_assoc, hscale]
    refine roundedAt_le_of_nearest ?_
    rw [hhalf]
    omega

/-- **Nine tenths of a whole number are rounded up as if they were exact.** -/
theorem ceilNat_nineTenths_le_iff {n : Nat} (hpos : 0 < n) (hfits : n < 2 ^ 49) (k : Nat) :
    ceilNat (Float.ofNat n * 0.9) ≤ k ↔ 9 * n ≤ 10 * k := by
  have hlog : n.log2 < 49 := (Nat.log2_lt (Nat.ne_of_gt hpos)).mpr hfits
  have hunits : 4 ≤ spareBits n ∧ spareBits n ≤ 52 := by
    unfold spareBits
    omega
  have hnumber := fraction_ofNat hpos (Nat.lt_trans hfits (by decide))
  obtain ⟨shift, carry, mantissa, place, hshift, hplace, hproduct, hrounded⟩ :=
    hnumber.mul fraction_nineTenths (by omega) (by omega)
  have hcarry : mantissa ≤ k * 2 ^ place ↔ mantissa * 2 ^ carry ≤ k * 2 ^ (place + carry) := by
    rw [Nat.pow_add, ← Nat.mul_assoc, Nat.mul_le_mul_right_iff (Nat.two_pow_pos carry)]
  rw [hproduct.ceilNat_le_iff, hcarry, hrounded]
  exact roundedAt_nineTenths_le_iff hnumber.high hunits.1 hshift (by omega) k

/-- **The rank is the least that is at least nine tenths of the size**, in spite of the rounding. -/
theorem rank90_le_iff {size : Nat} (hpos : 0 < size) (hfits : size < 2 ^ 49) (k : Nat) :
    rank90 size ≤ k ↔ 9 * size ≤ 10 * k := by
  have hceil := ceilNat_nineTenths_le_iff hpos hfits
  have hfirst : ¬ceilNat (Float.ofNat size * 0.9) ≤ 0 := by
    rw [hceil]
    omega
  have hlast : ceilNat (Float.ofNat size * 0.9) ≤ size := (hceil size).mpr (by omega)
  have hrank : rank90 size = ceilNat (Float.ofNat size * 0.9) := by
    unfold rank90
    omega
  rw [hrank, hceil]

end NineTenths

/-! ## Places in order -/

section Places

variable {elements : List Nat} {place : Nat}

theorem getElem_le_getElem (h : elements.Pairwise (· ≤ ·)) {first second : Nat} (hle : first ≤ second)
    (hfirst : first < elements.length) (hsecond : second < elements.length) : elements[first] ≤ elements[second] :=
  h.rel_get_of_le (show (⟨first, hfirst⟩ : Fin elements.length) ≤ ⟨second, hsecond⟩ from hle)

/-- The elements up to a place do not exceed the one there. -/
theorem le_countP_le_getElem (h : elements.Pairwise (· ≤ ·)) (hplace : place < elements.length) :
    place + 1 ≤ elements.countP (· ≤ elements[place]) := by
  have hall : (elements.take (place + 1)).countP (· ≤ elements[place]) = (elements.take (place + 1)).length := by
    rw [List.countP_eq_length]
    intro element hmem
    obtain ⟨i, hi, rfl⟩ := List.getElem_of_mem hmem
    rw [List.length_take] at hi
    rw [List.getElem_take, decide_eq_true_eq]
    exact getElem_le_getElem h (by omega) _ hplace
  calc place + 1 = (elements.take (place + 1)).length := by rw [List.length_take]; omega
    _ = (elements.take (place + 1)).countP (· ≤ elements[place]) := hall.symm
    _ ≤ elements.countP (· ≤ elements[place]) := (List.take_sublist _ _).countP_le

/-- The elements from a place on are not less than the one there. -/
theorem countP_lt_getElem_le (h : elements.Pairwise (· ≤ ·)) (hplace : place < elements.length) :
    elements.countP (· < elements[place]) ≤ place := by
  have hnone : (elements.drop place).countP (· < elements[place]) = 0 := by
    rw [List.countP_eq_zero]
    intro element hmem
    obtain ⟨i, hi, rfl⟩ := List.getElem_of_mem hmem
    rw [List.length_drop] at hi
    rw [List.getElem_drop, decide_eq_true_eq]
    exact Nat.not_lt.mpr (getElem_le_getElem h (Nat.le_add_right _ _) hplace _)
  calc elements.countP (· < elements[place])
      = (elements.take place).countP (· < elements[place])
        + (elements.drop place).countP (· < elements[place]) := by
          rw [← List.countP_append, List.take_append_drop]
    _ = (elements.take place).countP (· < elements[place]) := by rw [hnone, Nat.add_zero]
    _ ≤ (elements.take place).length := List.countP_le_length
    _ ≤ place := List.length_take_le _ _

end Places

/-! ## The percentile -/

/-- Nine tenths of the numbers, or more, do not exceed this one, but fewer are less. -/
structure NinthDecile (numbers : List Nat) (decile : Nat) : Prop where
  enough : 9 * numbers.length ≤ 10 * numbers.countP (· ≤ decile)
  fewer : 10 * numbers.countP (· < decile) < 9 * numbers.length

namespace NinthDecile

variable {numbers others : List Nat} {decile other : Nat}

theorem not_lt (h : NinthDecile numbers decile) (h' : NinthDecile numbers other) : ¬decile < other := by
  intro hless
  have hmono : numbers.countP (· ≤ decile) ≤ numbers.countP (· < other) := by
    apply List.countP_mono_left
    intro number _ hle
    exact decide_eq_true (Nat.lt_of_le_of_lt (of_decide_eq_true hle) hless)
  have henough := h.enough
  have hfewer := h'.fewer
  omega

/-- There is one ninth decile at most. -/
theorem unique (h : NinthDecile numbers decile) (h' : NinthDecile numbers other) : decile = other :=
  Nat.le_antisymm (Nat.not_lt.mp (h'.not_lt h)) (Nat.not_lt.mp (h.not_lt h'))

/-- The order of the numbers does not matter. -/
theorem perm (h : NinthDecile numbers decile) (hperm : numbers.Perm others) : NinthDecile others decile :=
  ⟨by rw [← hperm.length_eq, ← hperm.countP_eq]; exact h.enough,
    by rw [← hperm.length_eq, ← hperm.countP_eq]; exact h.fewer⟩

end NinthDecile

/-- **The nearest rank is where the ninth decile is.** -/
theorem ninthDecile_nearestRank90 {magnitudes : List Nat} (hpos : 0 < magnitudes.length)
    (hfits : magnitudes.length < 2 ^ 49) :
    nearestRank90 magnitudes ∈ magnitudes ∧ NinthDecile magnitudes (nearestRank90 magnitudes) := by
  obtain ⟨sorted, hsorted⟩ : ∃ sorted, sorted = sortStable (fun a b => decide (a < b)) magnitudes := ⟨_, rfl⟩
  have hperm : sorted.Perm magnitudes := hsorted ▸ perm_sortStable _ magnitudes
  have horder : sorted.Pairwise (· ≤ ·) := hsorted ▸ pairwise_sortStable (fun magnitude => magnitude) magnitudes
  have hrank := rank90_le_iff hpos hfits
  have hlast : rank90 magnitudes.length ≤ magnitudes.length := (hrank _).mpr (by omega)
  have hplace : rank90 magnitudes.length - 1 < sorted.length := by
    rw [hperm.length_eq]
    omega
  have hvalue : nearestRank90 magnitudes = sorted[rank90 magnitudes.length - 1] := by
    unfold nearestRank90
    rw [← hsorted, List.getD_eq_getElem _ _ hplace]
  have hfirst : ¬rank90 magnitudes.length ≤ 0 := by
    rw [hrank]
    omega
  have hupto := le_countP_le_getElem horder hplace
  have hbelow := countP_lt_getElem_le horder hplace
  rw [← hvalue, hperm.countP_eq] at hupto hbelow
  refine ⟨?_, (hrank _).mp (by omega), Nat.lt_of_not_le (mt (hrank _).mpr (by omega))⟩
  rw [hvalue]
  exact hperm.mem_iff.mp (List.getElem_mem hplace)

/-- **The order of the numbers does not matter** for the nearest rank. -/
theorem nearestRank90_perm {numbers others : List Nat} (hpos : 0 < numbers.length) (hfits : numbers.length < 2 ^ 49)
    (hperm : others.Perm numbers) : nearestRank90 others = nearestRank90 numbers := by
  obtain ⟨-, hdecile⟩ := ninthDecile_nearestRank90 hpos hfits
  rw [← hperm.length_eq] at hpos hfits
  obtain ⟨-, hother⟩ := ninthDecile_nearestRank90 hpos hfits
  exact (hother.perm hperm).unique hdecile

/-! ## Blocks -/

theorem differences_eq_zipWith (previous : Int64) (values : List Int64) :
    differences previous values = List.zipWith (fun before value => value - before) (previous :: values) values := by
  induction values generalizing previous with
  | nil => rfl
  | cons value values ih => rw [differences, ih, List.zipWith_cons_cons]

theorem innerSteps_eq_zipWith (values : List Int64) :
    innerSteps values = List.zipWith (fun before value => value - before) values values.tail := by
  cases values with
  | nil => rfl
  | cons value values => exact differences_eq_zipWith value values

namespace Metrics

theorem stepP90_ofValues (values : List Int64) :
    (ofValues values).stepP90 = nearestRank90 ((innerSteps values).map fun step => step.toInt.natAbs) := by
  cases values with
  | nil => simp [ofValues, zero, innerSteps, nearestRank90, sortStable]
  | cons value values => rfl

/-- **The 90th percentile of the steps is that by nearest rank.** A list has at least two values, and no more than
    2 ^ 49 of them; a block has a thousand at most. Its steps are the differences of neighbours, wrapping at 64 bits,
    and their number is one less. Then the figure is the magnitude of one of the steps, so at most 2 ^ 63; nine tenths
    of all magnitudes, or more, do not exceed it, and fewer than nine tenths are less. No other number is like that, so
    the figure is the same for all lists that have these steps in whatever order. -/
theorem stepP90_nearestRank (values : List Int64) (hsome : 2 ≤ values.length) (hfits : values.length ≤ 2 ^ 49) :
    innerSteps values = List.zipWith (fun before value => value - before) values values.tail ∧
    let steps : List Int64 := innerSteps values
    let magnitudes : List Nat := steps.map fun step => step.toInt.natAbs
    let p90 : Nat := (ofValues values).stepP90
    steps.length + 1 = values.length ∧
      (∃ step ∈ steps, p90 = step.toInt.natAbs) ∧ p90 ≤ 2 ^ 63 ∧
      9 * steps.length ≤ 10 * magnitudes.countP (· ≤ p90) ∧
      10 * magnitudes.countP (· < p90) < 9 * steps.length ∧
      (∀ p : Nat, 9 * steps.length ≤ 10 * magnitudes.countP (· ≤ p) →
        10 * magnitudes.countP (· < p) < 9 * steps.length → p = p90) ∧
      ∀ others : List Int64, (innerSteps others).Perm steps → (ofValues others).stepP90 = p90 := by
  refine ⟨innerSteps_eq_zipWith values, ?_⟩
  intro steps magnitudes p90
  have hcount : steps.length + 1 = values.length := by
    show (innerSteps values).length + 1 = values.length
    rw [innerSteps_eq_zipWith, List.length_zipWith, List.length_tail]
    omega
  have hlength : magnitudes.length = steps.length := List.length_map _
  have hp90 : p90 = nearestRank90 magnitudes := stepP90_ofValues values
  obtain ⟨hmem, hdecile⟩ := ninthDecile_nearestRank90 (by omega : 0 < magnitudes.length) (by omega)
  rw [← hp90] at hmem hdecile
  obtain ⟨step, hstep, hmagnitude⟩ := List.mem_map.mp hmem
  refine ⟨hcount, ⟨step, hstep, hmagnitude.symm⟩, ?_, ?_, ?_, ?_, ?_⟩
  · have hlow := step.le_toInt
    have hhigh := step.toInt_lt
    omega
  · exact hlength ▸ hdecile.enough
  · exact hlength ▸ hdecile.fewer
  · intro p henough hfewer
    rw [← hlength] at henough hfewer
    exact NinthDecile.unique ⟨henough, hfewer⟩ hdecile
  · intro others hperm
    rw [stepP90_ofValues, hp90]
    exact nearestRank90_perm (by omega) (by omega) (hperm.map _)

/-- Ten steps, of which the one in the middle has the greatest magnitude there is: nine tenths are nine steps. -/
theorem stepP90_oneOutlier :
    let values : List Int64 := [0, 1, 2, 3, 4, Int64.minValue + 4, Int64.minValue + 5, Int64.minValue + 6,
      Int64.minValue + 7, Int64.minValue + 8, Int64.minValue + 9]
    2 ≤ values.length ∧ values.length ≤ 2 ^ 49 ∧ (innerSteps values)[4]? = some Int64.minValue ∧
      Int64.minValue.toInt.natAbs = 2 ^ 63 ∧ (ofValues values).stepP90 = 1 := by
  intro values
  have hsome : 2 ≤ values.length := by decide
  have hfits : values.length ≤ 2 ^ 49 := by decide
  obtain ⟨-, -, -, -, -, -, hunique, -⟩ := stepP90_nearestRank values hsome hfits
  exact ⟨hsome, hfits, by decide, by decide, (hunique 1 (by decide) (by decide)).symm⟩

end Metrics

end SnapshotArchive

import Mathlib.Algebra.Order.Field.Power
import Mathlib.Data.Rat.Cast.Order
import Mathlib.Tactic.Positivity
import TraversalPlan.Binary64.Basic

/-!
# What finite bits stand for

A finite number is a significand times a power of two, under a sign. The programs compute with its
magnitude as a ratio of naturals.

* `Binary64.scaleBy`: a ratio of naturals divided by a power of a base.
* `Binary64.value`: what finite bits stand for.
* `Binary64.magnitude_eq_ratio`: the same by naturals, and comparisons with naturals in these terms.
-/

namespace TraversalPlan.Binary64

/-! ## Ratios that are scaled -/

/-- `num / den` divided by a power of a base, again as a ratio. -/
def scaleBy (b num den : Nat) (e : Int) : Nat × Nat :=
  if 0 ≤ e then (num, den * Nat.pow b e.toNat) else (num * Nat.pow b (-e).toNat, den)

theorem scaleBy_eq (b num den : Nat) (e : Int) :
    ((scaleBy b num den e).1 : ℚ) / (scaleBy b num den e).2 = num / den / (b : ℚ) ^ e := by
  unfold scaleBy
  split_ifs with he
  · have hpow : (b : ℚ) ^ e.toNat = (b : ℚ) ^ e := by
      rw [← zpow_natCast, Int.toNat_of_nonneg he]
    simp only [Nat.pow_eq]
    push_cast
    rw [hpow, div_div]
  · have hpow : (b : ℚ) ^ (-e).toNat = ((b : ℚ) ^ e)⁻¹ := by
      rw [← zpow_natCast, Int.toNat_of_nonneg (by omega), zpow_neg]
    simp only [Nat.pow_eq]
    push_cast
    rw [hpow, mul_div_right_comm, div_eq_mul_inv _ ((b : ℚ) ^ e)]

theorem scaleBy_pos {b num den : Nat} (hb : 0 < b) (hden : 0 < den) (e : Int) :
    0 < (scaleBy b num den e).2 := by
  unfold scaleBy
  split
  · exact Nat.mul_pos hden (Nat.pow_pos hb)
  · exact hden

theorem scaleDown_eq (num den : Nat) (e : Int) :
    ((scaleDown num den e).1 : ℚ) / (scaleDown num den e).2 = num / den / 2 ^ e :=
  scaleBy_eq 2 num den e

theorem scaleDown_pos {num den : Nat} (hden : 0 < den) (e : Int) :
    0 < (scaleDown num den e).2 := scaleBy_pos (by decide) hden e

/-! ## Magnitudes -/

/-- The magnitude of finite bits. -/
def magnitude (x : Binary64) : ℚ := x.significand * 2 ^ x.unitExponent

/-- What finite bits stand for. -/
def value (x : Binary64) : ℚ := if x.negative then -x.magnitude else x.magnitude

theorem magnitude_eq_ratio (x : Binary64) : x.magnitude = x.ratio.1 / x.ratio.2 := by
  rw [ratio, scaleDown_eq, magnitude, zpow_neg, Nat.cast_one, div_one, div_inv_eq_mul]

theorem ratio_den_pos (x : Binary64) : 0 < x.ratio.2 := scaleDown_pos (by decide) _

theorem ratio_den_pos_rat (x : Binary64) : (0 : ℚ) < x.ratio.2 := by exact_mod_cast x.ratio_den_pos

theorem value_eq_ratio {x : Binary64} (h : x.negative = false) :
    x.value = x.ratio.1 / x.ratio.2 := by
  rw [value, h, magnitude_eq_ratio]
  rfl

theorem value_pos {x : Binary64} : 0 < x.value ↔ x.negative = false ∧ 0 < x.ratio.1 := by
  cases h : x.negative with
  | true =>
    have hnonneg : (0 : ℚ) ≤ x.magnitude := by rw [magnitude_eq_ratio]; positivity
    simpa [value, h] using hnonneg
  | false => simp [value_eq_ratio h, div_pos_iff_of_pos_right x.ratio_den_pos_rat]

theorem value_lt_one {x : Binary64} (h : x.negative = false) :
    x.value < 1 ↔ x.ratio.1 < x.ratio.2 := by
  rw [value_eq_ratio h, div_lt_one x.ratio_den_pos_rat, Nat.cast_lt]

theorem value_eq_natCast {x : Binary64} (h : x.negative = false) {k : Nat} :
    x.value = k ↔ x.ratio.1 = k * x.ratio.2 := by
  rw [value_eq_ratio h, div_eq_iff x.ratio_den_pos_rat.ne']
  exact_mod_cast Iff.rfl

end TraversalPlan.Binary64

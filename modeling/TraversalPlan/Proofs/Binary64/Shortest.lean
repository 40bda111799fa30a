import Mathlib.Tactic.NormNum
import TraversalPlan.Proofs.Binary64.Rounding

/-!
# Shortest decimals

The digits of a number are a point of a decimal grid in its rounding interval, from the first grid
that has one near the number. The grid with seventeen digits is finer than the interval, so that
there is such a point for every positive finite number (**`rounds_shortest`**).

* `Decimal.value`: what digits stand for; zeros at the end do not count.
* `Binary64.rounds_of_onGrid`, `Binary64.exists_onGrid`: the point on a grid reads back as the number,
  and there is one if the grid is fine enough.
* `Binary64.decimalExponent_le`: the power of ten of the first digit.
-/

namespace TraversalPlan

/-! ## Decimals -/

namespace Decimal

/-- What digits and an exponent stand for. -/
def value (d : Decimal) : ℚ := d.digits * 10 ^ d.exponent

theorem value_trim (fuel : Nat) (d : Decimal) : (d.trim fuel).value = d.value := by
  induction fuel generalizing d with
  | zero => rfl
  | succ fuel ih =>
    rw [trim]
    split_ifs with hzero
    · have hdigits : (d.digits : ℚ) = (d.digits / 10 : Nat) * 10 := by
        exact_mod_cast (Nat.div_mul_cancel (Nat.dvd_of_mod_eq_zero hzero)).symm
      rw [ih, value, value, hdigits, zpow_add_one₀ (by norm_num)]
      ring
    · rfl

end Decimal

namespace Binary64

theorem scaleDecimal_eq (num den : Nat) (k : Int) :
    ((scaleDecimal num den k).1 : ℚ) / (scaleDecimal num den k).2 = num / den / 10 ^ k :=
  scaleBy_eq 10 num den k

theorem scaleDecimal_pos {num den : Nat} (hden : 0 < den) (k : Int) :
    0 < (scaleDecimal num den k).2 := scaleBy_pos (by decide) hden k

/-! ## Points of a grid -/

section Grid

variable {x : Binary64} {k : Int} {p : Nat} {tie : DigitTie}

/-- A quarter of the unit of a number over the step of a grid, as a ratio. -/
def quarterSteps (x : Binary64) (k : Int) : Nat × Nat :=
  scaleDecimal (scaleDown 1 1 (2 - x.unitExponent)).1 (scaleDown 1 1 (2 - x.unitExponent)).2 k

/-- The point of the grid is in the rounding interval. -/
def holds (x : Binary64) (k : Int) (p : Nat) : Bool :=
  if decide (x.significand % 2 = 0) then
    decide (x.roundingQuarters.1 * (x.quarterSteps k).1 ≤ p * (x.quarterSteps k).2 ∧
      p * (x.quarterSteps k).2 ≤ x.roundingQuarters.2.2 * (x.quarterSteps k).1)
  else
    decide (x.roundingQuarters.1 * (x.quarterSteps k).1 < p * (x.quarterSteps k).2 ∧
      p * (x.quarterSteps k).2 < x.roundingQuarters.2.2 * (x.quarterSteps k).1)

/-- The last point of the grid that does not exceed the number. -/
def below (x : Binary64) (k : Int) : Nat :=
  4 * x.significand * (x.quarterSteps k).1 / (x.quarterSteps k).2

theorem quarterSteps_pos (x : Binary64) (k : Int) : (0 : ℚ) < (x.quarterSteps k).2 := by
  exact_mod_cast scaleDecimal_pos (scaleDown_pos (by decide) _) k

theorem quarterSteps_eq (x : Binary64) (k : Int) :
    ((x.quarterSteps k).1 : ℚ) = 2 ^ (x.unitExponent - 2) / 10 ^ k * (x.quarterSteps k).2 := by
  rw [← div_eq_iff (x.quarterSteps_pos k).ne', quarterSteps, scaleDecimal_eq, scaleDown_eq,
    ← neg_sub, zpow_neg]
  simp

theorem quarters_lt_iff (n : Nat) : n * (x.quarterSteps k).1 < p * (x.quarterSteps k).2 ↔
    (n : ℚ) * 2 ^ (x.unitExponent - 2) < p * 10 ^ k := by
  have hden := x.quarterSteps_pos k
  have hstep : (0 : ℚ) < 10 ^ k := by positivity
  rw [← Nat.cast_lt (α := ℚ), Nat.cast_mul, Nat.cast_mul, quarterSteps_eq, ← mul_assoc,
    mul_lt_mul_iff_left₀ hden, mul_div_assoc', div_lt_iff₀ hstep]

theorem lt_quarters_iff (n : Nat) : p * (x.quarterSteps k).2 < n * (x.quarterSteps k).1 ↔
    (p : ℚ) * 10 ^ k < n * 2 ^ (x.unitExponent - 2) := by
  have hden := x.quarterSteps_pos k
  have hstep : (0 : ℚ) < 10 ^ k := by positivity
  rw [← Nat.cast_lt (α := ℚ), Nat.cast_mul, Nat.cast_mul, quarterSteps_eq, ← mul_assoc,
    mul_lt_mul_iff_left₀ hden, mul_div_assoc', lt_div_iff₀ hstep]

theorem holds_iff : x.holds k p = true ↔ x.Rounds (p * 10 ^ k) := by
  unfold holds Rounds low high
  simp only [decide_eq_true_eq, ← not_lt]
  split <;> simp only [decide_eq_true_eq, lt_quarters_iff, quarters_lt_iff]

theorem onGrid_eq (tie : DigitTie) (x : Binary64) (k : Int) : x.onGrid tie k =
    match x.holds k (x.below k), x.holds k (x.below k + 1) with
    | true, false => some (x.below k)
    | false, true =>
      if 4 * x.significand * (x.quarterSteps k).1 % (x.quarterSteps k).2 = 0 then none
      else some (x.below k + 1)
    | false, false => none
    | true, true =>
      if 2 * (4 * x.significand * (x.quarterSteps k).1 % (x.quarterSteps k).2) <
          (x.quarterSteps k).2 then some (x.below k)
      else if (x.quarterSteps k).2 <
          2 * (4 * x.significand * (x.quarterSteps k).1 % (x.quarterSteps k).2) then
        some (x.below k + 1)
      else match tie with
        | .up => some (x.below k + 1)
        | .even => some (x.below k + x.below k % 2) := rfl

/-- **A point that is found reads back as the number.** -/
theorem rounds_of_onGrid (h : x.onGrid tie k = some p) : x.Rounds (p * 10 ^ k) := by
  refine holds_iff.1 ?_
  rw [onGrid_eq] at h
  cases hbelow : x.holds k (x.below k) <;> cases habove : x.holds k (x.below k + 1) <;>
    rw [hbelow, habove] at h
  · cases h
  · dsimp only at h
    split_ifs at h
    rwa [← Option.some.inj h]
  · rwa [← Option.some.inj h]
  · -- both neighbours read back as the number
    have hboth : p = x.below k ∨ p = x.below k + 1 := by
      dsimp only at h
      split_ifs at h
      · exact .inl (Option.some.inj h).symm
      · exact .inr (Option.some.inj h).symm
      · cases tie with
        | up => exact .inr (Option.some.inj h).symm
        | even =>
          have hp := Option.some.inj h
          omega
    rcases hboth with rfl | rfl
    · exact hbelow
    · exact habove

theorem quarters_eq_magnitude (x : Binary64) :
    ((4 * x.significand : Nat) : ℚ) * 2 ^ (x.unitExponent - 2) = x.magnitude := by
  rw [magnitude, zpow_sub₀ two_ne_zero]
  push_cast
  ring

theorem below_le (x : Binary64) (k : Int) : (x.below k : ℚ) * 10 ^ k ≤ x.magnitude := by
  rw [← quarters_eq_magnitude, ← not_lt, ← quarters_lt_iff, not_lt]
  exact Nat.div_mul_le_self _ _

theorem lt_below_succ (x : Binary64) (k : Int) :
    x.magnitude < (x.below k + 1 : Nat) * 10 ^ k := by
  have hden : 0 < (x.quarterSteps k).2 := scaleDecimal_pos (scaleDown_pos (by decide) _) k
  rw [← quarters_eq_magnitude, ← quarters_lt_iff, mul_comm (x.below k + 1)]
  exact Nat.lt_mul_div_succ _ hden

/-- A number on the grid is the point below it. -/
theorem below_eq (h : 4 * x.significand * (x.quarterSteps k).1 % (x.quarterSteps k).2 = 0) :
    (x.below k : ℚ) * 10 ^ k = x.magnitude := by
  refine le_antisymm (x.below_le k) ?_
  rw [← quarters_eq_magnitude, ← not_lt, ← lt_quarters_iff, not_lt]
  exact (Nat.div_mul_cancel (Nat.dvd_of_mod_eq_zero h)).ge

/-- **A grid finer than the interval has a point in it** next to the number. -/
theorem exists_onGrid (tie : DigitTie) (hword : x.word ≠ 0) (hstep : (10 : ℚ) ^ k < x.high - x.low) :
    ∃ p, x.onGrid tie k = some p := by
  have hlow := low_lt_magnitude hword
  have hhigh := x.magnitude_lt_high
  have hneighbours : x.holds k (x.below k) = false → x.holds k (x.below k + 1) = true := by
    intro hbelow
    have hbelow : (x.below k : ℚ) * 10 ^ k ≤ x.low := by
      by_contra hlt
      rw [holds_iff.2 (rounds_of_lt (not_le.1 hlt) ((x.below_le k).trans_lt hhigh))] at hbelow
      cases hbelow
    refine holds_iff.2 (rounds_of_lt (hlow.trans (x.lt_below_succ k)) ?_)
    push_cast
    linarith
  rw [onGrid_eq]
  cases hbelow : x.holds k (x.below k) with
  | false =>
    have hrest : 4 * x.significand * (x.quarterSteps k).1 % (x.quarterSteps k).2 ≠ 0 := by
      intro hzero
      have hrounds : x.Rounds (x.below k * 10 ^ k) := by
        rw [below_eq hzero]
        exact rounds_of_lt hlow hhigh
      rw [holds_iff.2 hrounds] at hbelow
      cases hbelow
    rw [hneighbours hbelow]
    exact ⟨_, if_neg hrest⟩
  | true =>
    cases x.holds k (x.below k + 1) with
    | false => exact ⟨_, rfl⟩
    | true =>
      dsimp only
      split_ifs
      · exact ⟨_, rfl⟩
      · exact ⟨_, rfl⟩
      · cases tie <;> exact ⟨_, rfl⟩

end Grid

/-! ## Grids with few digits -/

theorem scaleDecimal_le_iff {num den : Nat} (hden : 0 < den) (k : Int) :
    (scaleDecimal num den k).2 ≤ (scaleDecimal num den k).1 ↔ (10 : ℚ) ^ k ≤ num / den := by
  have hpos : (0 : ℚ) < (scaleDecimal num den k).2 := by exact_mod_cast scaleDecimal_pos hden k
  have hstep : (0 : ℚ) < 10 ^ k := by positivity
  rw [← Nat.cast_le (α := ℚ), ← one_le_div hpos, scaleDecimal_eq, one_le_div hstep]

theorem decimalExponent_le {num den : Nat} (hden : 0 < den)
    (hmin : (10 : ℚ) ^ (-324 : Int) ≤ num / den) :
    (10 : ℚ) ^ decimalExponent num den ≤ num / den := by
  unfold decimalExponent
  dsimp only
  cases hfind : (List.range 633).find? fun (i : Nat) => decide
      ((scaleDecimal num den (308 - (i : Int))).2 ≤ (scaleDecimal num den (308 - (i : Int))).1) with
  | none => exact hmin
  | some i =>
    have hfits := List.find?_some hfind
    exact (scaleDecimal_le_iff hden _).1 (of_decide_eq_true hfits)

variable {x : Binary64}

/-- The least positive number has its first digit at the power of ten `-324`. -/
theorem le_magnitude (hword : x.word ≠ 0) : (10 : ℚ) ^ (-324 : Int) ≤ x.magnitude := by
  have hleast : (10 : ℚ) ^ (-324 : Int) ≤ 2 ^ (-1074 : Int) := by
    have hnat : 2 ^ 1074 ≤ 10 ^ 324 := by decide +kernel
    rw [zpow_neg, zpow_neg, inv_le_inv₀ (by positivity) (by positivity)]
    exact_mod_cast hnat
  have hunit : (-1074 : Int) ≤ x.unitExponent := by
    unfold unitExponent
    omega
  have hpow : (2 : ℚ) ^ (-1074 : Int) ≤ 2 ^ x.unitExponent :=
    zpow_le_zpow_right₀ one_le_two hunit
  have hone : (1 : ℚ) ≤ x.significand := by exact_mod_cast significand_pos hword
  have hpos : (0 : ℚ) ≤ 2 ^ x.unitExponent := by positivity
  calc (10 : ℚ) ^ (-324 : Int) ≤ 1 * 2 ^ x.unitExponent := by rw [one_mul]; exact hleast.trans hpow
    _ ≤ x.significand * 2 ^ x.unitExponent := mul_le_mul_of_nonneg_right hone hpos

/-- **Seventeen digits suffice.** The interval is wider than their grid. -/
theorem step_lt (hword : x.word ≠ 0) {top : Int} (htop : (10 : ℚ) ^ top ≤ x.magnitude) :
    (10 : ℚ) ^ (top - 16) < x.high - x.low := by
  have hpow : (0 : ℚ) < 2 ^ x.unitExponent := by positivity
  have hstep : (10 : ℚ) ^ (top - 16) * 10 ^ (16 : Int) ≤ x.significand * 2 ^ x.unitExponent := by
    rw [← zpow_add₀ (by norm_num), sub_add_cancel]
    exact htop
  norm_num at hstep
  rw [high_eq, low_eq hword, ← sub_mul]
  cases hlowest : isLowest x.word with
  | true =>
    have hsignificand : (x.significand : ℚ) = 2 ^ 52 := by
      rw [significand_eq, wordSignificand_of_isLowest hlowest]
      norm_num
    rw [hsignificand] at hstep
    rw [if_pos rfl]
    nlinarith
  | false =>
    have hsignificand : (x.significand : ℚ) ≤ 2 ^ 53 := by exact_mod_cast x.significand_lt.le
    have hbound := mul_le_mul_of_nonneg_right hsignificand hpow.le
    rw [if_neg (by decide)]
    nlinarith

/-- Some grid with at most seventeen digits has a point that reads back as the number. -/
theorem exists_firstOnGrids (tie : DigitTie) (hword : x.word ≠ 0) :
    ∃ d, x.firstOnGrids tie (digitGrids x.ratio.1 x.ratio.2) = some d := by
  have htop : (10 : ℚ) ^ decimalExponent x.ratio.1 x.ratio.2 ≤ x.magnitude := by
    rw [magnitude_eq_ratio]
    refine decimalExponent_le x.ratio_den_pos ?_
    rw [← magnitude_eq_ratio]
    exact le_magnitude hword
  obtain ⟨p, hgrid⟩ := exists_onGrid tie hword (step_lt hword htop)
  rw [← Option.isSome_iff_exists, firstOnGrids, List.findSome?_isSome_iff]
  refine ⟨_, List.mem_map.2 ⟨16, List.mem_range.2 (by decide), rfl⟩, ?_⟩
  rw [Nat.cast_ofNat, hgrid]
  rfl

/-- **The shortest decimal reads back as the number.** -/
theorem rounds_shortest (tie : DigitTie) (hword : x.word ≠ 0) :
    x.Rounds (x.shortest tie).value := by
  obtain ⟨d, hd⟩ := exists_firstOnGrids tie hword
  obtain ⟨k, -, hpoint⟩ := List.exists_of_findSome?_eq_some hd
  obtain ⟨p, hgrid, rfl⟩ := Option.map_eq_some_iff.1 hpoint
  rw [shortest, hd, Option.map_some, Option.getD_some, Decimal.value_trim]
  exact rounds_of_onGrid hgrid

end Binary64
end TraversalPlan

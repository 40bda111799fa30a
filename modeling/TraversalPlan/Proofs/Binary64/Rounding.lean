import Mathlib.Algebra.Order.Monoid.NatCast
import Mathlib.Order.Monotone.Basic
import Mathlib.Tactic.FieldSimp
import Mathlib.Tactic.Linarith
import Mathlib.Tactic.Ring
import TraversalPlan.Binary64.Text
import TraversalPlan.Proofs.Binary64.Value

/-!
# Rounding intervals

The reals that round to a positive number lie between the points halfway to the number before and to
the number after it. An end of this interval belongs to the number with the even significand, so that
no real rounds to two numbers (**`word_eq_of_rounds`**).

* `Binary64.word`: the bits of a number but for the sign, in the order of the magnitudes.
* `Binary64.halfway`: the point halfway from a word to the next. These points ascend.
* `Binary64.Rounds`: a real lies in the rounding interval of a number.
-/

namespace TraversalPlan.Binary64

/-! ## Words -/

/-- The bits of a number but for its sign. -/
def word (x : Binary64) : Nat := x.bits.toNat % signUnit

variable {x y : Binary64}

theorem exponentField_eq (x : Binary64) : x.exponentField = x.word / exponentUnit := by
  have := x.bits.toNat_lt
  unfold exponentField word exponentUnit signUnit
  omega

theorem fractionField_eq (x : Binary64) : x.fractionField = x.word % exponentUnit := by
  unfold fractionField word exponentUnit signUnit
  omega

/-- A number is its sign and its word. -/
theorem eq_of_word (hsign : x.negative = y.negative) (hword : x.word = y.word) : x = y := by
  have hx := x.bits.toNat_lt
  have hy := y.bits.toNat_lt
  have hbits : x.bits.toNat = y.bits.toNat := by
    unfold negative at hsign
    unfold word at hword
    have hsign := decide_eq_decide.1 hsign
    unfold signUnit at hsign hword
    omega
  obtain ⟨x⟩ := x
  obtain ⟨y⟩ := y
  exact congrArg mk (UInt64.toNat_inj.1 hbits)

/-- The significand that a word stands for. -/
def wordSignificand (w : Nat) : Nat :=
  if w / exponentUnit = 0 then w % exponentUnit else exponentUnit + w % exponentUnit

/-- The power of two that one unit of this significand stands for. -/
def wordUnit (w : Nat) : Int := (max (w / exponentUnit) 1 : Nat) - 1075

theorem significand_eq (x : Binary64) : x.significand = wordSignificand x.word := by
  rw [significand, exponentField_eq, fractionField_eq, wordSignificand]

theorem unitExponent_eq (x : Binary64) : x.unitExponent = wordUnit x.word := by
  rw [unitExponent, exponentField_eq, wordUnit]

theorem wordSignificand_mod_two (w : Nat) : wordSignificand w % 2 = w % 2 := by
  unfold wordSignificand exponentUnit
  split <;> omega

theorem significand_pos (h : x.word ≠ 0) : 0 < x.significand := by
  rw [significand_eq]
  unfold wordSignificand exponentUnit
  split <;> omega

theorem significand_lt (x : Binary64) : x.significand < 2 ^ 53 := by
  rw [significand_eq]
  unfold wordSignificand exponentUnit
  split <;> omega

/-- The word of the least number of a binade, under which the numbers are twice as dense. -/
def isLowest (w : Nat) : Bool := decide (w % exponentUnit = 0 ∧ 1 < w / exponentUnit)

theorem wordSignificand_of_isLowest {w : Nat} (h : isLowest w = true) :
    wordSignificand w = 2 ^ 52 := by
  obtain ⟨hfraction, hexponent⟩ := of_decide_eq_true h
  unfold wordSignificand
  rw [hfraction, if_neg (by omega)]
  rfl

/-- The next word has the next significand, or the least one of the next binade. -/
theorem word_succ (w : Nat) :
    (isLowest (w + 1) = false ∧ wordSignificand (w + 1) = wordSignificand w + 1 ∧
        wordUnit (w + 1) = wordUnit w) ∨
      isLowest (w + 1) = true ∧ 2 * wordSignificand (w + 1) = wordSignificand w + 1 ∧
        wordUnit (w + 1) = wordUnit w + 1 := by
  have hnext : (w + 1) % exponentUnit ≠ 0 ∧ (w + 1) / exponentUnit = w / exponentUnit ∧
        (w + 1) % exponentUnit = w % exponentUnit + 1 ∨
      (w + 1) % exponentUnit = 0 ∧ (w + 1) / exponentUnit = w / exponentUnit + 1 ∧
        w % exponentUnit + 1 = exponentUnit := by
    unfold exponentUnit
    omega
  unfold isLowest wordSignificand wordUnit
  rcases hnext with ⟨hne, hexponent, hfraction⟩ | ⟨hzero, hexponent, hfraction⟩
  · left
    refine ⟨decide_eq_false fun h => hne h.1, ?_, by rw [hexponent]⟩
    rw [hexponent, hfraction]
    split <;> omega
  · rw [hexponent, hzero]
    by_cases hw : w / exponentUnit = 0
    · -- the first normal number follows the last subnormal one
      left
      rw [hw]
      exact ⟨by decide, hfraction.symm, by decide⟩
    · right
      have hpos : 1 ≤ w / exponentUnit := Nat.pos_of_ne_zero hw
      rw [if_neg hw, if_neg (Nat.succ_ne_zero _)]
      refine ⟨decide_eq_true ⟨rfl, by omega⟩, by omega, ?_⟩
      rw [max_eq_left (by omega), max_eq_left (by omega)]
      push_cast
      ring

/-! ## Halfway points -/

/-- The point halfway from the number with a word to the number with the next word. -/
def halfway (w : Nat) : ℚ := (2 * wordSignificand w + 1) * 2 ^ (wordUnit w - 1)

/-- The lower end of the rounding interval. -/
def low (x : Binary64) : ℚ := x.roundingQuarters.1 * 2 ^ (x.unitExponent - 2)

/-- The upper end of the rounding interval. -/
def high (x : Binary64) : ℚ := x.roundingQuarters.2.2 * 2 ^ (x.unitExponent - 2)

theorem high_eq (x : Binary64) : x.high = (x.significand + 1 / 2) * 2 ^ x.unitExponent := by
  rw [high, zpow_sub₀ two_ne_zero, roundingQuarters]
  push_cast
  ring

theorem low_eq (h : x.word ≠ 0) :
    x.low = (x.significand - if isLowest x.word then 1 / 4 else 1 / 2) * 2 ^ x.unitExponent := by
  have hpos := significand_pos h
  have hquarters : (x.roundingQuarters.1 : ℚ) =
      4 * x.significand - if isLowest x.word then 1 else 2 := by
    rw [roundingQuarters, isLowest, exponentField_eq, fractionField_eq, Nat.cast_sub]
    · push_cast
      rfl
    · split <;> omega
  rw [low, zpow_sub₀ two_ne_zero, hquarters]
  split <;> ring

theorem low_lt_magnitude (h : x.word ≠ 0) : x.low < x.magnitude := by
  have hpow : (0 : ℚ) < 2 ^ x.unitExponent := by positivity
  rw [low_eq h, magnitude]
  refine mul_lt_mul_of_pos_right ?_ hpow
  split <;> linarith

theorem magnitude_lt_high (x : Binary64) : x.magnitude < x.high := by
  have hpow : (0 : ℚ) < 2 ^ x.unitExponent := by positivity
  rw [high_eq, magnitude]
  refine mul_lt_mul_of_pos_right ?_ hpow
  linarith

theorem high_eq_halfway (x : Binary64) : x.high = halfway x.word := by
  rw [high_eq, halfway, ← significand_eq, ← unitExponent_eq, zpow_sub₀ two_ne_zero]
  ring

theorem low_eq_halfway {w : Nat} (h : x.word = w + 1) : x.low = halfway w := by
  rw [low_eq (by omega), significand_eq, unitExponent_eq, h, halfway, zpow_sub₀ two_ne_zero]
  rcases word_succ w with ⟨hlowest, hsignificand, hunit⟩ | ⟨hlowest, hsignificand, hunit⟩
  · rw [hlowest, hsignificand, hunit]
    push_cast
    ring
  · have hw : (wordSignificand w : ℚ) = 2 * wordSignificand (w + 1) - 1 := by
      rw [eq_sub_iff_add_eq]
      exact_mod_cast hsignificand.symm
    rw [hlowest, hw, hunit, zpow_add₀ two_ne_zero, if_pos rfl]
    ring

theorem halfway_strictMono : StrictMono halfway := by
  refine strictMono_nat_of_lt_succ fun w => ?_
  have hpow : (0 : ℚ) < 2 ^ (wordUnit w - 1) := by positivity
  unfold halfway
  rcases word_succ w with ⟨-, hsignificand, hunit⟩ | ⟨-, hsignificand, hunit⟩
  · rw [hsignificand, hunit]
    refine mul_lt_mul_of_pos_right ?_ hpow
    push_cast
    linarith
  · have hnext : (2 : ℚ) * wordSignificand (w + 1) = wordSignificand w + 1 := by
      exact_mod_cast hsignificand
    rw [hnext, hunit, add_sub_right_comm, zpow_add₀ two_ne_zero, mul_comm _ ((2 : ℚ) ^ (1 : Int)),
      ← mul_assoc]
    refine mul_lt_mul_of_pos_right ?_ hpow
    linarith

/-! ## Rounding -/

/-- The real lies in the rounding interval. Its ends belong to it if the significand is even. -/
def Rounds (x : Binary64) (q : ℚ) : Prop :=
  if x.significand % 2 = 0 then x.low ≤ q ∧ q ≤ x.high else x.low < q ∧ q < x.high

theorem rounds_of_lt {q : ℚ} (hlow : x.low < q) (hhigh : q < x.high) : x.Rounds q := by
  unfold Rounds
  split
  · exact ⟨hlow.le, hhigh.le⟩
  · exact ⟨hlow, hhigh⟩

theorem Rounds.low_le {q : ℚ} (h : x.Rounds q) : x.low ≤ q := by
  unfold Rounds at h
  split at h
  · exact h.1
  · exact h.1.le

theorem Rounds.le_high {q : ℚ} (h : x.Rounds q) : q ≤ x.high := by
  unfold Rounds at h
  split at h
  · exact h.2
  · exact h.2.le

theorem Rounds.even {q : ℚ} (h : x.Rounds q) (hend : q = x.low ∨ q = x.high) :
    x.significand % 2 = 0 := by
  by_contra hodd
  rw [Rounds, if_neg hodd] at h
  rcases hend with rfl | rfl
  · exact lt_irrefl _ h.1
  · exact lt_irrefl _ h.2

theorem Rounds.word_le {q : ℚ} (hx : x.Rounds q) (hy : y.Rounds q) : y.word ≤ x.word := by
  by_contra hlt
  obtain ⟨w, hw⟩ : ∃ w, y.word = w + 1 := ⟨y.word - 1, by omega⟩
  have hhigh : x.high ≤ y.low := by
    rw [high_eq_halfway, low_eq_halfway hw]
    exact halfway_strictMono.monotone (by omega)
  have hends : q = x.high ∧ q = y.low :=
    ⟨le_antisymm hx.le_high (hhigh.trans hy.low_le), le_antisymm (hx.le_high.trans hhigh) hy.low_le⟩
  -- the end is shared by neighbours only, of which one is odd
  have hneighbours : x.word = w := by
    refine halfway_strictMono.injective ?_
    rw [← high_eq_halfway, ← low_eq_halfway hw, ← hends.1, ← hends.2]
  have hxeven := hx.even (.inr hends.1)
  have hyeven := hy.even (.inl hends.2)
  rw [significand_eq, wordSignificand_mod_two] at hxeven hyeven
  omega

/-- **No real rounds to two magnitudes.** -/
theorem word_eq_of_rounds {q : ℚ} (hx : x.Rounds q) (hy : y.Rounds q) : x.word = y.word :=
  le_antisymm (hy.word_le hx) (hx.word_le hy)

end TraversalPlan.Binary64

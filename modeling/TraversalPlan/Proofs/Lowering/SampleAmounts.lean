import TraversalPlan.Proofs.Binary64.Value
import TraversalPlan.Proofs.Lowering.Success

/-!
# Sizes of samples

A sample is given its size as a floating-point number. The number is taken for what it stands for
exactly: a number between zero and one is a fraction, a whole number from one on is a count, and any
other is refused before anything is lowered. Only `2 ^ 64` is not taken so: no count is that large,
and it is taken for the largest one (**`SampleStep.amount_of_lower`**).

* `SampleAmount.IsSize`: the size that a number stands for.
* `SampleAmount.ofNumber?_eq_some`: the size that a number is taken for, in terms of its value.
-/

namespace TraversalPlan

/-! ## Sizes -/

namespace SampleAmount

/-- The size that a number stands for: a number of records, or a fraction of them. -/
def IsSize (x : Binary64) : SampleAmount → Prop
  | count n => x.isFinite ∧ 1 ≤ n.toNat ∧ x.value = n.toNat
  | ratio r => r = x ∧ x.isFinite ∧ 0 < x.value ∧ x.value < 1

variable {x : Binary64} {a : SampleAmount}

theorem IsSize.isFinite (h : a.IsSize x) : x.isFinite = true := by
  cases a with
  | count n => exact h.1
  | ratio r => exact h.2.1

theorem IsSize.value_pos (h : a.IsSize x) : 0 < x.value := by
  cases a with
  | count n =>
    have hpos : (0 : ℚ) < n.toNat := by exact_mod_cast h.2.1
    exact h.2.2 ▸ hpos
  | ratio r => exact h.2.2.1

/-- The largest count is rounded up to `2 ^ 64`. -/
theorem magnitudeLE_largest :
    x.magnitudeLE (.ofNat (UInt64.size - 1)) = true ↔ x.ratio.1 ≤ UInt64.size * x.ratio.2 := by
  have hlargest : (Binary64.ofNat (UInt64.size - 1)).ratio = (UInt64.size, 1) := by decide +kernel
  rw [Binary64.magnitudeLE, hlargest, Nat.mul_one, decide_eq_true_iff]

theorem toUInt64_of_pos (hfinite : x.isFinite = true) (hpos : 0 < x.value) :
    x.toUInt64 = UInt64.ofNat (min (x.ratio.1 / x.ratio.2) (UInt64.size - 1)) := by
  obtain ⟨hneg, -⟩ := Binary64.value_pos.1 hpos
  simp only [Binary64.isFinite, bne_iff_ne] at hfinite
  simp [Binary64.toUInt64, Binary64.isNaN, Binary64.isInfinite, hfinite, hneg]

/-- Numbers that are not finite or not positive are no sizes. -/
theorem ofNumber?_eq : ofNumber? x =
    if x.isFinite ∧ 0 < x.value then
      if x.ratio.1 < x.ratio.2 then some (ratio x)
      else if x.ratio.1 % x.ratio.2 = 0 ∧ x.ratio.1 ≤ UInt64.size * x.ratio.2 then
        some (count (UInt64.ofNat (min (x.ratio.1 / x.ratio.2) (UInt64.size - 1))))
      else none
    else none := by
  have hguard : (!x.isFinite || x.negative || x.ratio.1 == 0) = true ↔
      ¬ (x.isFinite = true ∧ 0 < x.value) := by
    rw [Binary64.value_pos]
    cases x.isFinite <;> cases x.negative <;> simp
  unfold ofNumber?
  dsimp only
  rw [if_congr hguard rfl rfl, ite_not]
  by_cases hpos : x.isFinite = true ∧ 0 < x.value
  · rw [if_pos hpos, if_pos hpos, toUInt64_of_pos hpos.1 hpos.2]
    simp only [magnitudeLE_largest]
  · rw [if_neg hpos, if_neg hpos]

/-- The size in terms of what the number stands for. -/
theorem ofNumber?_eq_some : ofNumber? x = some a ↔ x.isFinite ∧ 0 < x.value ∧
    (x.value < 1 ∧ a = ratio x ∨
      ∃ k : Nat, 1 ≤ k ∧ k ≤ UInt64.size ∧ x.value = k ∧
        a = count (UInt64.ofNat (min k (UInt64.size - 1)))) := by
  rw [ofNumber?_eq]
  by_cases hpos : x.isFinite = true ∧ 0 < x.value
  case neg =>
    rw [if_neg hpos]
    exact iff_of_false nofun fun h => hpos ⟨h.1, h.2.1⟩
  case pos =>
    obtain ⟨hneg, hnum⟩ := Binary64.value_pos.1 hpos.2
    have hden := x.ratio_den_pos
    simp only [hpos, if_pos, true_and, Binary64.value_lt_one hneg, Binary64.value_eq_natCast hneg]
    constructor
    · intro h
      split_ifs at h with hlt hwhole <;> obtain rfl := Option.some.inj h
      · exact .inl ⟨hlt, rfl⟩
      · refine .inr ⟨_, Nat.div_pos (not_lt.1 hlt) hden, ?_,
          (Nat.div_mul_cancel (Nat.dvd_of_mod_eq_zero hwhole.1)).symm, rfl⟩
        rw [Nat.div_le_iff_le_mul_add_pred hden, Nat.mul_comm]
        exact Nat.le_add_right_of_le hwhole.2
    · rintro (⟨hlt, rfl⟩ | ⟨k, hk, hle, hnum, rfl⟩)
      · rw [if_pos hlt]
      · have hge : ¬ x.ratio.1 < x.ratio.2 := by
          rw [hnum, not_lt]
          exact Nat.le_mul_of_pos_left _ hk
        rw [if_neg hge, if_pos, hnum, Nat.mul_div_cancel _ hden]
        rw [hnum, Nat.mul_mod_left]
        exact ⟨rfl, Nat.mul_le_mul_right _ hle⟩

/-- A number other than `2 ^ 64` is taken for the size that it stands for. -/
theorem ofNumber?_eq_some_of_ne (hx : x.value ≠ UInt64.size) :
    ofNumber? x = some a ↔ a.IsSize x := by
  rw [ofNumber?_eq_some]
  constructor
  · rintro ⟨hfinite, hpos, ⟨hlt, rfl⟩ | ⟨k, hk, hle, hvalue, rfl⟩⟩
    · exact ⟨rfl, hfinite, hpos, hlt⟩
    · have hne : k ≠ UInt64.size := fun h => hx (h ▸ hvalue)
      have htoNat : (UInt64.ofNat (min k (UInt64.size - 1))).toNat = k := by
        rw [Nat.min_eq_left (by omega), UInt64.toNat_ofNat_of_lt' (by omega)]
      refine ⟨hfinite, ?_, ?_⟩ <;> rwa [htoNat]
  · intro h
    refine ⟨h.isFinite, h.value_pos, ?_⟩
    cases a with
    | ratio r =>
      obtain ⟨rfl, -, -, hlt⟩ := h
      exact .inl ⟨hlt, rfl⟩
    | count n =>
      have hlt := n.toNat_lt_size
      refine .inr ⟨n.toNat, h.2.1, hlt.le, h.2.2, ?_⟩
      rw [Nat.min_eq_left (by omega), UInt64.ofNat_toNat]

end SampleAmount

/-! ## Samples -/

/-- **The size of a sample is what its number stands for**, unless that is `2 ^ 64`. A number that
stands for no size is refused, and then nothing has been lowered. -/
theorem SampleStep.amount_of_lower {s : SampleStep} (c : Context)
    (hs : s.amount.value ≠ UInt64.size) :
    (∀ ops, (s.lower c).result = .ok ops ↔ ∃ amount weight, amount.IsSize s.amount ∧
      (c.resolve s.modulatorOrIdentity 0).result = .ok weight ∧
        ops = Resolved.operators [weight]
          (.sample amount (s.seed.getD c.config.defaultSampleSeed) weight.expression)) ∧
    ((∀ amount, ¬ SampleAmount.IsSize s.amount amount) →
      s.lower c = c.fail (.sampleAmount s.amount) ∧
        (s.lower c).log = [] ∧
        (s.lower c).result.mapError LoweringError.report = .error (.invalidStructure c.step.text
          ("sample amount must be a positive count or a ratio in (0, 1), got " ++
            Layout.plain.write s.amount))) := by
  refine ⟨fun ops => ?_, fun hnone => ?_⟩
  · simp only [lower_eq_ok, SampleAmount.ofNumber?_eq_some_of_ne hs]
  · have hamount : SampleAmount.ofNumber? s.amount = none :=
      Option.eq_none_iff_forall_ne_some.2 fun a ha =>
        hnone a ((SampleAmount.ofNumber?_eq_some_of_ne hs).1 ha)
    have hlower : s.lower c = c.fail (.sampleAmount s.amount) := by rw [lower, hamount]
    rw [hlower]
    exact ⟨rfl, rfl, rfl⟩

/-- A sample, as the first step. -/
def Context.firstSample : Context :=
  ⟨fun t scope => t.build .standard scope, .standard, ⟨"sample", Position.root.child 0⟩⟩

/-- Ten records. -/
def SampleStep.ten : SampleStep := ⟨⟨0x4024000000000000⟩, none, none⟩

/-- A number of records that is none. -/
def SampleStep.unknown : SampleStep := ⟨.nan, none, none⟩

/-- More records than the largest count. -/
def SampleStep.pastLargest : SampleStep := ⟨⟨0x43F0000000000000⟩, none, none⟩

theorem SampleStep.amount_of_lower_ten :
    (ten.amount.value ≠ UInt64.size ∧
      (ten.lower .firstSample).result = .ok [.sample (.count 10) 0 "@"]) ∧
    (unknown.amount.value ≠ UInt64.size ∧ (∀ amount, ¬ SampleAmount.IsSize unknown.amount amount) ∧
      (unknown.lower .firstSample).result.mapError LoweringError.report =
        .error (.invalidStructure "sample@0"
          "sample amount must be a positive count or a ratio in (0, 1), got NaN")) := by
  have hten : ten.amount.value = (10 : Nat) :=
    (Binary64.value_eq_natCast rfl).2 (by decide +kernel)
  have hne : ten.amount.value ≠ UInt64.size := by
    rw [hten]
    exact_mod_cast (by decide : 10 ≠ UInt64.size)
  have hsize : SampleAmount.IsSize ten.amount (.count 10) := ⟨rfl, by decide, hten⟩
  have hunknown : unknown.amount.value ≠ UInt64.size := fun h =>
    absurd ((Binary64.value_eq_natCast rfl).1 h) (by decide +kernel)
  have hnone : ∀ amount, ¬ SampleAmount.IsSize unknown.amount amount := fun _ h =>
    Bool.false_ne_true h.isFinite
  exact ⟨⟨hne, ((amount_of_lower .firstSample hne).1 _).2
      ⟨.count 10, ⟨none, "@"⟩, hsize, by cbv, rfl⟩⟩,
    hunknown, hnone, ((amount_of_lower .firstSample hunknown).2 hnone).2.2⟩

theorem SampleStep.largest_of_pastLargest :
    pastLargest.amount.value = UInt64.size ∧
      (pastLargest.lower .firstSample).result = .ok [.sample (.count 18446744073709551615) 0 "@"] ∧
        ∀ amount, ¬ SampleAmount.IsSize pastLargest.amount amount := by
  have hvalue : pastLargest.amount.value = UInt64.size :=
    (Binary64.value_eq_natCast rfl).2 (by decide +kernel)
  have hamount : SampleAmount.ofNumber? pastLargest.amount =
      some (.count 18446744073709551615) := by decide +kernel
  refine ⟨hvalue, ?_, ?_⟩
  · rw [lower, hamount]
    cbv
  · rintro (n | r) h
    · have hn : (UInt64.size : ℚ) = n.toNat := hvalue ▸ h.2.2
      exact n.toNat_lt_size.ne' (by exact_mod_cast hn)
    · have hlt : (UInt64.size : ℚ) < 1 := hvalue ▸ h.2.2.2
      exact absurd (Nat.cast_lt_one.1 hlt) (by decide)

end TraversalPlan

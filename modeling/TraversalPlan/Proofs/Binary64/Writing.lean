import TraversalPlan.Numeral
import TraversalPlan.Proofs.Binary64.Shortest
import TraversalPlan.Proofs.Text.Ends

/-!
# Texts of floating-point numbers

In every notation the text of a positive number says which decimal was written, up to zeros at its
end, and this decimal rounds to no other magnitude. So different numbers have different texts, but
for those that are not a number (**`Layout.write_inj`**).

* `Decimal.ofChars`: the decimal that an unsigned text stands for.
* `Layout.value_ofChars_writeDecimal`: the text of a decimal stands for its value, with and without
  an exponent.
* `Binary64.decimal`: the decimal that is written for a finite number, zero included.
-/

namespace TraversalPlan

namespace Decimal

/-! ## Digits -/

/-- The number that digits stand for. -/
def ofDigits (ds : List Char) : Nat := Nat.ofDigitChars 10 ds 0

@[simp]
theorem ofDigits_digitChars (d : Decimal) : ofDigits d.digitChars = d.digits :=
  Nat.ofDigitChars_toDigits (by decide) (by decide)

theorem ofDigits_append (as bs : List Char) :
    ofDigits (as ++ bs) = ofDigits as * 10 ^ bs.length + ofDigits bs := by
  rw [ofDigits, Nat.ofDigitChars_append, Nat.ofDigitChars_eq_ofDigitChars_zero, mul_comm]
  rfl

@[simp]
theorem ofDigits_zero_cons (ds : List Char) : ofDigits ('0' :: ds) = ofDigits ds := rfl

@[simp]
theorem ofDigits_zeros_append (n : Nat) (ds : List Char) :
    ofDigits (Layout.zeros n ++ ds) = ofDigits ds := by
  induction n with
  | zero => rfl
  | succ n ih => exact ih

@[simp]
theorem ofDigits_append_zeros (ds : List Char) (n : Nat) :
    ofDigits (ds ++ Layout.zeros n) = ofDigits ds * 10 ^ n := by
  have hzeros : ofDigits (Layout.zeros n) = 0 := by
    rw [← List.append_nil (Layout.zeros n), ofDigits_zeros_append]
    rfl
  rw [ofDigits_append, hzeros, Layout.zeros, List.length_replicate, Nat.add_zero]

theorem isDigit_of_mem_digitChars {d : Decimal} {c : Char} (hc : c ∈ d.digitChars) : c.isDigit :=
  Nat.isDigit_of_mem_toDigits (by decide) (by decide) hc

theorem length_digitChars_pos (d : Decimal) : 0 < d.digitChars.length := Nat.length_toDigits_pos

/-- Zeros at the end of the digits do not change the value. -/
theorem value_eq_of_zeros {d e : Decimal} (n : Nat) (hdigits : e.digits = d.digits * 10 ^ n)
    (hexponent : e.exponent = d.exponent - n) : e.value = d.value := by
  have hpow : (10 : ℚ) ^ n ≠ 0 := by positivity
  rw [value, value, hdigits, hexponent, zpow_sub₀ (by norm_num), zpow_natCast]
  push_cast
  field_simp

/-! ## Reading a text -/

/-- The decimal that an unsigned text stands for: digits with a point at most, and an exponent. -/
def ofChars (cs : List Char) : Decimal :=
  match cs.dropWhile Char.isDigit with
  | '.' :: r =>
    ⟨ofDigits (cs.takeWhile Char.isDigit ++ r.takeWhile Char.isDigit),
      (Binary64.exponentOf? (r.dropWhile Char.isDigit)).getD 0 - (r.takeWhile Char.isDigit).length⟩
  | r => ⟨ofDigits (cs.takeWhile Char.isDigit), (Binary64.exponentOf? r).getD 0⟩

/-- What stands behind the digits of a number: nothing, or an exponent. -/
def EndsDigits (r : List Char) : Prop := ∀ c ∈ r.head?, c = 'e'

variable {whole fraction r : List Char}

theorem EndsDigits.not_isDigit (h : EndsDigits r) : ∀ c ∈ r.head?, c.isDigit = false := by
  intro c hc
  rw [h c hc]
  rfl

theorem ofChars_whole (hwhole : ∀ c ∈ whole, c.isDigit) (hr : EndsDigits r) :
    ofChars (whole ++ r) = ⟨ofDigits whole, (Binary64.exponentOf? r).getD 0⟩ := by
  obtain ⟨htake, hdrop⟩ := takeWhile_run hwhole hr.not_isDigit
  rw [ofChars, htake, hdrop]
  split
  · cases hr _ rfl
  · rfl

theorem ofChars_point (hwhole : ∀ c ∈ whole, c.isDigit) (hfraction : ∀ c ∈ fraction, c.isDigit)
    (hr : EndsDigits r) : ofChars (whole ++ '.' :: (fraction ++ r)) =
      ⟨ofDigits (whole ++ fraction), (Binary64.exponentOf? r).getD 0 - fraction.length⟩ := by
  have hpoint : ∀ c ∈ ('.' :: (fraction ++ r)).head?, c.isDigit = false := by simp
  obtain ⟨htake, hdrop⟩ := takeWhile_run hwhole hpoint
  obtain ⟨htake', hdrop'⟩ := takeWhile_run hfraction hr.not_isDigit
  simp only [ofChars, htake, hdrop, htake', hdrop']

/-- A text without an exponent stands for a decimal that it writes with some zeros more. -/
theorem value_ofChars_of_zeros {d : Decimal} (n : Nat) (hwhole : ∀ c ∈ whole, c.isDigit)
    (hfraction : ∀ c ∈ fraction, c.isDigit)
    (hdigits : ofDigits (whole ++ fraction) = d.digits * 10 ^ n)
    (hexponent : -(fraction.length : Int) = d.exponent - n) :
    (ofChars (whole ++ '.' :: fraction)).value = d.value := by
  have hread := ofChars_point hwhole hfraction (r := []) nofun
  rw [List.append_nil] at hread
  rw [hread]
  refine value_eq_of_zeros n hdigits ?_
  rw [← hexponent]
  exact zero_sub _

end Decimal

/-! ## Notations -/

namespace Layout

open Decimal

theorem isDigit_of_mem_zeros {n : Nat} {c : Char} (hc : c ∈ zeros n) : c.isDigit := by
  obtain rfl := List.eq_of_mem_replicate hc
  rfl

theorem length_zeros (n : Nat) : (zeros n).length = n := List.length_replicate

/-- **Digits without an exponent** stand for the decimal. -/
theorem value_ofChars_writePositional (l : Layout) (d : Decimal) :
    (ofChars (l.writePositional d)).value = d.value := by
  have hdigits : ∀ c ∈ d.digitChars, c.isDigit := fun c => isDigit_of_mem_digitChars
  have hzero : ∀ c ∈ ['0'], c.isDigit := List.forall_mem_singleton.2 rfl
  have hlength := d.length_digitChars_pos
  have hleading : d.leading = d.exponent + (d.digitChars.length - 1) := rfl
  unfold writePositional
  dsimp only
  by_cases hsmall : d.leading < 0
  · -- a zero, and more zeros between the point and the digits
    rw [if_pos hsmall, List.cons_append, List.cons_append]
    refine value_ofChars_of_zeros 0 hzero
      (List.forall_mem_append.2 ⟨fun c => isDigit_of_mem_zeros, hdigits⟩) (by simp) ?_
    rw [List.length_append, length_zeros]
    omega
  rw [if_neg hsmall]
  by_cases hwhole : d.digitChars.length ≤ d.leading.toNat + 1
  · -- the digits and zeros up to the point
    rw [if_pos hwhole]
    obtain ⟨n, hn⟩ : ∃ n, d.leading.toNat + 1 - d.digitChars.length = n := ⟨_, rfl⟩
    have hzeros : ∀ c ∈ d.digitChars ++ zeros n, c.isDigit :=
      List.forall_mem_append.2 ⟨hdigits, fun c => isDigit_of_mem_zeros⟩
    rw [hn]
    cases l.pointZero with
    | true =>
      refine value_ofChars_of_zeros (n + 1) hzeros hzero ?_ ?_
      · have hsucc : zeros n ++ ['0'] = zeros (n + 1) := List.replicate_succ'.symm
        rw [List.append_assoc, hsucc, ofDigits_append_zeros, ofDigits_digitChars]
      · rw [List.length_singleton]
        omega
    | false =>
      have hend : EndsDigits [] := nofun
      rw [if_neg Bool.false_ne_true, ofChars_whole hzeros hend]
      refine value_eq_of_zeros n (by simp) ?_
      simp [Binary64.exponentOf?]
      omega
  · -- the point is among the digits
    rw [if_neg hwhole]
    refine value_ofChars_of_zeros 0 (fun c hc => hdigits c (List.mem_of_mem_take hc))
      (fun c hc => hdigits c (List.mem_of_mem_drop hc)) (by simp) ?_
    rw [List.length_drop]
    omega

/-- The exponent is read with its sign. -/
theorem exponentOf?_append (l : Layout) (i : Int) :
    Binary64.exponentOf? ('e' :: (if i < 0 then ['-'] else if l.plus then ['+'] else []) ++
      Nat.toDigits 10 i.natAbs) = some i := by
  have hall : (Nat.toDigits 10 i.natAbs).all Char.isDigit = true :=
    List.all_eq_true.2 fun _ hc => Nat.isDigit_of_mem_toDigits (by decide) (by decide) hc
  have hvalue : Nat.ofDigitChars 10 (Nat.toDigits 10 i.natAbs) 0 = i.natAbs :=
    Nat.ofDigitChars_toDigits (by decide) (by decide)
  by_cases hi : i < 0
  · rw [if_pos hi]
    simp [Binary64.exponentOf?, hall, hvalue, abs_of_neg hi]
  have habs : |i| = i := abs_of_nonneg (not_lt.1 hi)
  rw [if_neg hi]
  cases l.plus with
  | true => simp [Binary64.exponentOf?, hall, hvalue, habs]
  | false =>
    -- without a sign the digits begin with a digit
    obtain ⟨c, cs, hcs⟩ : ∃ c cs, Nat.toDigits 10 i.natAbs = c :: cs :=
      List.exists_cons_of_ne_nil Nat.toDigits_ne_nil
    have hdigit := Numeral.isDigit_head_toDigits hcs
    have hminus : c ≠ '-' := by
      rintro rfl
      cases hdigit
    have hplus : c ≠ '+' := by
      rintro rfl
      cases hdigit
    rw [hcs] at hall hvalue ⊢
    simp [Binary64.exponentOf?, hminus, hplus, hall, hvalue, habs]

/-- **Digits with an exponent** stand for the decimal. -/
theorem value_ofChars_writeExponent (l : Layout) (d : Decimal) :
    (ofChars (l.writeExponent d)).value = d.value := by
  have hdigits : ∀ c ∈ d.digitChars, c.isDigit := fun c => isDigit_of_mem_digitChars
  have hleading : d.leading = d.exponent + (d.digitChars.length - 1) := rfl
  have hofDigits := d.ofDigits_digitChars
  have hexponent := exponentOf?_append l d.leading
  obtain ⟨c, cs, hcs⟩ : ∃ c cs, d.digitChars = c :: cs :=
    List.exists_cons_of_length_pos d.length_digitChars_pos
  rw [writeExponent, hcs]
  rw [hcs] at hdigits hleading hofDigits
  obtain ⟨hc, hcs⟩ := List.forall_mem_cons.1 hdigits
  have hwhole : ∀ c' ∈ [c], c'.isDigit := List.forall_mem_singleton.2 hc
  generalize htail : 'e' :: (if d.leading < 0 then ['-'] else if l.plus then ['+'] else []) ++
    Nat.toDigits 10 d.leading.natAbs = tail at hexponent
  have hend : EndsDigits tail := by
    rintro _ hmem
    rw [← htail] at hmem
    exact (Option.some.inj hmem).symm
  rw [List.append_assoc, htail]
  cases cs with
  | nil =>
    have hread := ofChars_whole hwhole hend
    rw [hexponent] at hread
    rw [hread]
    refine value_eq_of_zeros 0 (by simpa using hofDigits) ?_
    rw [List.length_singleton] at hleading
    simpa using hleading
  | cons c' cs =>
    have hread := ofChars_point hwhole hcs hend
    rw [hexponent] at hread
    rw [List.cons_append, List.cons_append]
    rw [List.singleton_append] at hread
    rw [hread]
    refine value_eq_of_zeros 0 (by simpa using hofDigits) ?_
    simp only [List.length_cons, Option.getD_some] at hleading ⊢
    push_cast at hleading ⊢
    omega

/-- **The text of a decimal stands for its value.** -/
theorem value_ofChars_writeDecimal (l : Layout) (d : Decimal) :
    (ofChars (l.writeDecimal d)).value = d.value := by
  rcases l.writeDecimal_eq_or d with h | h <;> rw [h]
  · exact l.value_ofChars_writePositional d
  · exact l.value_ofChars_writeExponent d

/-- A text begins with a digit. -/
def BeginsWithDigit (cs : List Char) : Prop := ∃ c r, cs = c :: r ∧ c.isDigit

theorem beginsWithDigit_append {as : List Char} (bs : List Char) (h : BeginsWithDigit as) :
    BeginsWithDigit (as ++ bs) := by
  obtain ⟨c, r, rfl, hc⟩ := h
  exact ⟨c, r ++ bs, rfl, hc⟩

theorem beginsWithDigit_digitChars (d : Decimal) : BeginsWithDigit d.digitChars := by
  obtain ⟨c, cs, hcs⟩ := List.exists_cons_of_length_pos d.length_digitChars_pos
  exact ⟨c, cs, hcs, isDigit_of_mem_digitChars (hcs ▸ List.mem_cons_self)⟩

theorem beginsWithDigit_writePositional (l : Layout) (d : Decimal) :
    BeginsWithDigit (l.writePositional d) := by
  have hdigits := beginsWithDigit_digitChars d
  unfold writePositional
  dsimp only
  by_cases hsmall : d.leading < 0
  · rw [if_pos hsmall]
    exact ⟨'0', _, rfl, rfl⟩
  rw [if_neg hsmall]
  split
  · exact beginsWithDigit_append _ (beginsWithDigit_append _ hdigits)
  · obtain ⟨c, cs, hcs, hc⟩ := hdigits
    rw [hcs, List.take_succ_cons]
    exact ⟨c, _, rfl, hc⟩

theorem beginsWithDigit_writeExponent (l : Layout) (d : Decimal) :
    BeginsWithDigit (l.writeExponent d) := by
  obtain ⟨c, cs, hcs, hc⟩ := beginsWithDigit_digitChars d
  rw [writeExponent, hcs]
  cases cs with
  | nil => exact ⟨c, _, rfl, hc⟩
  | cons c' cs => exact ⟨c, _, rfl, hc⟩

theorem beginsWithDigit_writeDecimal (l : Layout) (d : Decimal) :
    BeginsWithDigit (l.writeDecimal d) := by
  rcases l.writeDecimal_eq_or d with h | h <;> rw [h]
  · exact l.beginsWithDigit_writePositional d
  · exact l.beginsWithDigit_writeExponent d

end Layout

/-! ## Numbers -/

namespace Binary64

variable {x y : Binary64}

/-- The decimal that is written for a finite number. -/
def decimal (tie : DigitTie) (x : Binary64) : Decimal :=
  if x.significand = 0 then ⟨0, 0⟩ else x.shortest tie

/-- **What is written rounds to the number.** -/
theorem rounds_decimal (tie : DigitTie) (x : Binary64) : x.Rounds (x.decimal tie).value := by
  unfold decimal
  split
  · rename_i hzero
    have hvalue : (Decimal.mk 0 0).value = 0 := zero_mul _
    have hlow : x.low = 0 := by simp [low, roundingQuarters, hzero]
    have hhigh : 0 ≤ x.high := by
      rw [high_eq]
      positivity
    rw [hvalue, Rounds, hzero, if_pos rfl]
    exact ⟨hlow.le, hhigh⟩
  · rename_i hpos
    refine rounds_shortest tie fun hword => hpos ?_
    rw [significand_eq, hword]
    rfl

theorem word_of_isInfinite (h : x.isInfinite = true) : x.word = infinityWord := by
  unfold isInfinite at h
  rw [Bool.and_eq_true, beq_iff_eq, beq_iff_eq, exponentField_eq, fractionField_eq] at h
  unfold infinityWord exponentUnit at *
  omega

end Binary64

namespace Layout

variable {x y : Binary64}

open Decimal

/-- The text of a number that is not a not-a-number, without its sign. -/
def writeMagnitude (l : Layout) (x : Binary64) : List Char :=
  if x.isInfinite then ['i', 'n', 'f']
  else if x.significand = 0 then l.writePositional ⟨0, 0⟩
  else l.writeDecimal (x.shortest l.tie)

theorem toList_write (l : Layout) (h : x.isNaN = false) :
    (l.write x).toList = if x.negative then '-' :: l.writeMagnitude x else l.writeMagnitude x := by
  rw [write, h, if_neg Bool.false_ne_true, String.toList_ofList]
  rfl

/-- A finite number is written in digits that stand for its decimal. -/
theorem writeMagnitude_of_finite (l : Layout) (h : x.isInfinite = false) :
    BeginsWithDigit (l.writeMagnitude x) ∧
      (ofChars (l.writeMagnitude x)).value = (x.decimal l.tie).value := by
  rw [writeMagnitude, h, if_neg Bool.false_ne_true, Binary64.decimal]
  split
  · exact ⟨l.beginsWithDigit_writePositional _, l.value_ofChars_writePositional _⟩
  · exact ⟨l.beginsWithDigit_writeDecimal _, l.value_ofChars_writeDecimal _⟩

theorem writeMagnitude_of_isInfinite (l : Layout) (h : x.isInfinite = true) :
    l.writeMagnitude x = ['i', 'n', 'f'] := by
  rw [writeMagnitude, if_pos h]

/-- No magnitude begins with a sign. -/
theorem writeMagnitude_ne (l : Layout) (x : Binary64) (r : List Char) :
    l.writeMagnitude x ≠ '-' :: r := by
  intro h
  cases hinf : x.isInfinite with
  | true =>
    rw [l.writeMagnitude_of_isInfinite hinf] at h
    cases h
  | false =>
    obtain ⟨c, cs, hcs, hc⟩ := (l.writeMagnitude_of_finite hinf).1
    rw [hcs] at h
    cases h
    cases hc

/-- The magnitude of a number is read off its text. -/
theorem word_eq_of_writeMagnitude (l : Layout) (h : l.writeMagnitude x = l.writeMagnitude y) :
    x.word = y.word := by
  have hne : ∀ {x y : Binary64}, x.isInfinite = true → y.isInfinite = false →
      l.writeMagnitude x ≠ l.writeMagnitude y := by
    intro x y hx hy h
    obtain ⟨c, cs, hcs, hc⟩ := (l.writeMagnitude_of_finite hy).1
    rw [l.writeMagnitude_of_isInfinite hx, hcs] at h
    cases h
    cases hc
  cases hx : x.isInfinite <;> cases hy : y.isInfinite
  · have hvalue := (l.writeMagnitude_of_finite hx).2
    rw [h, (l.writeMagnitude_of_finite hy).2] at hvalue
    refine Binary64.word_eq_of_rounds (x.rounds_decimal l.tie) ?_
    rw [← hvalue]
    exact y.rounds_decimal l.tie
  · exact absurd h.symm (hne hy hx)
  · exact absurd h (hne hx hy)
  · rw [Binary64.word_of_isInfinite hx, Binary64.word_of_isInfinite hy]

/-- **Different numbers have different texts** in every notation. -/
theorem write_inj (l : Layout) (hx : x.isNaN = false) (hy : y.isNaN = false)
    (h : l.write x = l.write y) : x = y := by
  have htext := congrArg String.toList h
  rw [l.toList_write hx, l.toList_write hy] at htext
  cases hxs : x.negative <;> cases hys : y.negative <;> rw [hxs, hys] at htext
  · exact Binary64.eq_of_word (hxs.trans hys.symm) (l.word_eq_of_writeMagnitude htext)
  · exact absurd htext (l.writeMagnitude_ne x _)
  · exact absurd htext.symm (l.writeMagnitude_ne y _)
  · exact Binary64.eq_of_word (hxs.trans hys.symm)
      (l.word_eq_of_writeMagnitude (List.cons.inj htext).2)

end Layout
end TraversalPlan

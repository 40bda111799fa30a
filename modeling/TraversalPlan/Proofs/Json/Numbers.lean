import TraversalPlan.Json.Number
import TraversalPlan.Proofs.Value.Word

/-!
# Numbers in a text

A number reaches as far as its form allows, so what stands after it must not go on with it. A written
number followed by anything else is found as it was written, and denotes what was written: an integer
an integer, and a floating-point number a floating-point number, since it has a point or an exponent.

* `Document.Ends`: a text does not go on with a number before it.
* `Document.steady_spanNumber?`: a number is found in front of what does not go on with it.
* `Document.spanNumber?_chars`: a written integer is found.
* `Number.ofLiteral?_chars_natural`, `Number.ofLiteral?_chars_negative`: what a written integer
  denotes.
* `Binary64.Survives`: a finite number that is read back from its own text.
-/

namespace TraversalPlan

namespace Document

/-- The character may stand inside a number that has begun. -/
def goesOn (c : Char) : Bool := c.isDigit || c = '.' || c = 'e' || c = 'E'

/-- The text does not go on with a number before it. -/
def Ends (tail : List Char) : Prop := ∀ c ∈ tail.head?, goesOn c = false

theorem ends_nil : Ends [] := nofun

theorem ends_cons {c : Char} {tail : List Char} (h : goesOn c = false) : Ends (c :: tail) := by
  rintro d hd
  obtain rfl := Option.some.inj hd
  exact h

/-! ## Parts of a number -/

section

variable {cs lit rest tail : List Char}

theorem spanDigits_append (h : (spanDigits cs).2 = [] → Ends tail) :
    spanDigits (cs ++ tail) = ((spanDigits cs).1, (spanDigits cs).2 ++ tail) := by
  induction cs with
  | nil =>
    have hends := h rfl
    cases tail with
    | nil => rfl
    | cons c tail =>
      have hc := hends c rfl
      have hdigit : c.isDigit = false := by
        simp only [goesOn, Bool.or_eq_false_iff] at hc
        exact hc.1.1.1
      simp [spanDigits, hdigit]
  | cons c cs ih =>
    by_cases hc : c.isDigit
    · simp only [spanDigits, List.cons_append, List.takeWhile_cons, List.dropWhile_cons, hc,
        if_true] at ih h ⊢
      have htail := Prod.mk.inj (ih h)
      rw [htail.1, htail.2]
    · simp [spanDigits, hc]

theorem spanDigits_fst_append_snd (cs : List Char) : (spanDigits cs).1 ++ (spanDigits cs).2 = cs :=
  List.takeWhile_append_dropWhile

theorem exists_rest_of_spanDigits (h : ∃ c ∈ cs, c.isDigit = false) :
    ∃ ds c rest, spanDigits cs = (ds, c :: rest) := by
  obtain ⟨c, hc, hdigit⟩ := h
  have hparts := spanDigits_fst_append_snd cs
  cases hrest : (spanDigits cs).2 with
  | cons d rest => exact ⟨(spanDigits cs).1, d, rest, Prod.ext rfl hrest⟩
  | nil =>
    rw [hrest, List.append_nil] at hparts
    have hall : ∀ c ∈ (spanDigits cs).1, c.isDigit = true := List.all_eq_true.1 List.all_takeWhile
    rw [hparts] at hall
    rw [hall c hc] at hdigit
    cases hdigit

/-- What a reader takes from the front is found again when more text follows. -/
def Steady (span : List Char → Option (List Char × List Char)) : Prop :=
  ∀ cs lit rest, span cs = some (lit, rest) → lit ++ rest = cs ∧
    ∀ tail, (rest = [] → Ends tail) → span (cs ++ tail) = some (lit, rest ++ tail)

theorem spanWhole?_eq_some : spanWhole? cs = some (lit, rest) ↔
    spanDigits cs = (lit, rest) ∧ lit ≠ [] ∧ ∀ c ds, lit ≠ '0' :: c :: ds := by
  unfold spanWhole?
  constructor
  · intro h
    split at h
    · cases h
    · cases h
    · rename_i hne hzero hdigits
      obtain ⟨rfl, rfl⟩ := Prod.mk.inj (Option.some.inj h)
      exact ⟨hdigits, hne, hzero⟩
  · rintro ⟨hdigits, hne, hzero⟩
    rw [hdigits]
    split
    · rename_i h
      exact absurd (Prod.mk.inj h).1 hne
    · rename_i h
      exact absurd (Prod.mk.inj h).1 (hzero _ _)
    · rename_i h
      rw [h]

theorem steady_spanWhole? : Steady spanWhole? := by
  intro cs lit rest h
  obtain ⟨hdigits, hform⟩ := spanWhole?_eq_some.1 h
  have hparts := spanDigits_fst_append_snd cs
  rw [hdigits] at hparts
  refine ⟨hparts, fun tail htail => spanWhole?_eq_some.2 ⟨?_, hform⟩⟩
  rw [spanDigits_append (by rwa [hdigits]), hdigits]

theorem steady_digits {front cs lit rest : List Char}
    (h : (match spanDigits cs with
      | ([], _) => none
      | (ds, rest) => some (front ++ ds, rest)) = some (lit, rest)) :
    lit ++ rest = front ++ cs ∧ ∀ tail, (rest = [] → Ends tail) →
      (match spanDigits (cs ++ tail) with
        | ([], _) => none
        | (ds, rest) => some (front ++ ds, rest)) = some (lit, rest ++ tail) := by
  have hparts := spanDigits_fst_append_snd cs
  generalize hdigits : spanDigits cs = digits at h hparts
  obtain ⟨_ | ⟨c, ds⟩, r⟩ := digits
  · cases h
  · obtain ⟨rfl, rfl⟩ := Prod.mk.inj (Option.some.inj h)
    refine ⟨by rw [List.append_assoc, hparts], fun tail htail => ?_⟩
    rw [spanDigits_append (by rwa [hdigits]), hdigits]

theorem spanFraction?_of_head? (h : cs.head? ≠ some '.') : spanFraction? cs = some ([], cs) := by
  cases cs with
  | nil => rfl
  | cons c cs =>
    unfold spanFraction?
    split
    · rename_i hcs
      exact (h (congrArg List.head? hcs)).elim
    · rfl

theorem head?_append_ne {c : Char} (hc : goesOn c = true) (h : cs.head? ≠ some c)
    (htail : cs = [] → Ends tail) : (cs ++ tail).head? ≠ some c := by
  cases cs with
  | nil =>
    intro hhead
    have hends := htail rfl c hhead
    rw [hc] at hends
    cases hends
  | cons d cs => exact h

theorem steady_spanFraction? : Steady spanFraction? := by
  intro cs lit rest h
  by_cases hpoint : cs.head? = some '.'
  · obtain ⟨ds, rfl⟩ := List.head?_eq_some_iff.1 hpoint
    exact @steady_digits ['.'] ds lit rest h
  · rw [spanFraction?_of_head? hpoint] at h
    obtain ⟨rfl, rfl⟩ := Prod.mk.inj (Option.some.inj h)
    refine ⟨rfl, fun tail htail => ?_⟩
    rw [spanFraction?_of_head? (head?_append_ne rfl hpoint htail)]

theorem spanExponent?_of_head? (hlower : cs.head? ≠ some 'e') (hupper : cs.head? ≠ some 'E') :
    spanExponent? cs = some ([], cs) := by
  cases cs with
  | nil => rfl
  | cons c cs =>
    rw [spanExponent?, if_neg]
    rintro (rfl | rfl)
    · exact hlower rfl
    · exact hupper rfl

theorem spanSign_append (h : cs ≠ []) :
    spanSign (cs ++ tail) = ((spanSign cs).1, (spanSign cs).2 ++ tail) ∧
      (spanSign cs).1 ++ (spanSign cs).2 = cs := by
  obtain ⟨c, cs, rfl⟩ := List.exists_cons_of_ne_nil h
  by_cases hplus : c = '+'
  · subst hplus
    exact ⟨rfl, rfl⟩
  by_cases hminus : c = '-'
  · subst hminus
    exact ⟨rfl, rfl⟩
  simp [spanSign, hplus, hminus]

theorem steady_spanExponent? : Steady spanExponent? := by
  intro cs lit rest h
  by_cases hmark : cs.head? = some 'e' ∨ cs.head? = some 'E'
  · obtain ⟨c, ds, rfl, hc⟩ : ∃ c ds, cs = c :: ds ∧ (c = 'e' ∨ c = 'E') := by
      rcases hmark with hmark | hmark
      · obtain ⟨ds, rfl⟩ := List.head?_eq_some_iff.1 hmark
        exact ⟨_, ds, rfl, .inl rfl⟩
      · obtain ⟨ds, rfl⟩ := List.head?_eq_some_iff.1 hmark
        exact ⟨_, ds, rfl, .inr rfl⟩
    rw [spanExponent?, if_pos hc] at h
    have hds : ds ≠ [] := by
      rintro rfl
      cases h
    obtain ⟨hlit, hsteady⟩ := @steady_digits (c :: (spanSign ds).1) (spanSign ds).2 lit rest h
    refine ⟨?_, fun tail htail => ?_⟩
    · rw [hlit, List.cons_append, (@spanSign_append ds [] hds).2]
    · rw [List.cons_append, spanExponent?, if_pos hc, (spanSign_append hds).1]
      exact hsteady tail htail
  · rw [not_or] at hmark
    rw [spanExponent?_of_head? hmark.1 hmark.2] at h
    obtain ⟨rfl, rfl⟩ := Prod.mk.inj (Option.some.inj h)
    refine ⟨rfl, fun tail htail => ?_⟩
    rw [spanExponent?_of_head? (head?_append_ne rfl hmark.1 htail)
      (head?_append_ne rfl hmark.2 htail)]

/-! ## Whole numbers -/

/-- A number after its sign, with the sign put in front of what is found. -/
def spanMagnitude? (minus cs : List Char) : Option (List Char × List Char) := do
  let (whole, cs) ← spanWhole? cs
  let (fraction, cs) ← spanFraction? cs
  let (exponent, cs) ← spanExponent? cs
  return (minus ++ whole ++ fraction ++ exponent, cs)

theorem spanNumber?_of_head? (h : cs.head? ≠ some '-') : spanNumber? cs = spanMagnitude? [] cs := by
  cases cs with
  | nil => rfl
  | cons c cs =>
    have hc : c ≠ '-' := fun hc => h (congrArg some hc)
    simp [spanNumber?, spanMagnitude?, hc]

theorem spanMagnitude?_eq_some {minus : List Char} :
    spanMagnitude? minus cs = some (lit, rest) ↔ ∃ whole fraction exponent cs₁ cs₂,
      spanWhole? cs = some (whole, cs₁) ∧ spanFraction? cs₁ = some (fraction, cs₂) ∧
        spanExponent? cs₂ = some (exponent, rest) ∧
        lit = minus ++ whole ++ fraction ++ exponent := by
  simp only [spanMagnitude?, Option.bind_eq_bind, Option.bind_eq_some_iff, Prod.exists,
    Option.pure_def, Option.some.injEq, Prod.mk.injEq]
  constructor
  · rintro ⟨whole, cs₁, hwhole, fraction, cs₂, hfraction, exponent, _, hexponent, rfl, rfl⟩
    exact ⟨whole, fraction, exponent, cs₁, cs₂, hwhole, hfraction, hexponent, rfl⟩
  · rintro ⟨whole, fraction, exponent, cs₁, cs₂, hwhole, hfraction, hexponent, rfl⟩
    exact ⟨whole, cs₁, hwhole, fraction, cs₂, hfraction, exponent, rest, hexponent, rfl, rfl⟩

/-- **A number is found again in front of what does not go on with it.** -/
theorem steady_spanMagnitude? {minus : List Char} (h : spanMagnitude? minus cs = some (lit, rest)) :
    lit ++ rest = minus ++ cs ∧ ∀ tail, (rest = [] → Ends tail) →
      spanMagnitude? minus (cs ++ tail) = some (lit, rest ++ tail) := by
  obtain ⟨whole, fraction, exponent, cs₁, cs₂, hwhole, hfraction, hexponent, rfl⟩ :=
    spanMagnitude?_eq_some.1 h
  obtain ⟨hcs, hwhole⟩ := steady_spanWhole? _ _ _ hwhole
  obtain ⟨hcs₁, hfraction⟩ := steady_spanFraction? _ _ _ hfraction
  obtain ⟨hcs₂, hexponent⟩ := steady_spanExponent? _ _ _ hexponent
  refine ⟨by simp [← hcs, ← hcs₁, ← hcs₂], fun tail htail => ?_⟩
  have htail₂ : cs₂ = [] → Ends tail := by
    rintro rfl
    exact htail (List.append_eq_nil_iff.1 hcs₂).2
  have htail₁ : cs₁ = [] → Ends tail := by
    rintro rfl
    exact htail₂ (List.append_eq_nil_iff.1 hcs₁).2
  exact spanMagnitude?_eq_some.2 ⟨whole, fraction, exponent, _, _, hwhole tail htail₁,
    hfraction tail htail₂, hexponent tail htail, rfl⟩

theorem steady_spanNumber? : Steady spanNumber? := by
  intro cs lit rest h
  by_cases hminus : cs.head? = some '-'
  · obtain ⟨ds, rfl⟩ := List.head?_eq_some_iff.1 hminus
    exact steady_spanMagnitude? h
  · have hne : cs ≠ [] := by
      rintro rfl
      cases h
    rw [spanNumber?_of_head? hminus] at h
    obtain ⟨hlit, hsteady⟩ := steady_spanMagnitude? h
    refine ⟨hlit, fun tail htail => ?_⟩
    rw [spanNumber?_of_head?, hsteady tail htail]
    obtain ⟨c, cs, rfl⟩ := List.exists_cons_of_ne_nil hne
    exact hminus

end

/-! ## Integers -/

theorem eq_zero_of_toDigits {n : Nat} {cs : List Char} (h : Nat.toDigits 10 n = '0' :: cs) :
    n = 0 := by
  induction n using Nat.strongRecOn generalizing cs with
  | ind n ih =>
    by_cases hn : n < 10
    · rw [Nat.toDigits_of_lt_base hn] at h
      have hdigit : ∀ n < 10, Nat.digitChar n = '0' → n = 0 := by decide
      exact hdigit n hn (List.cons.inj h).1
    · rw [Nat.toDigits_of_base_le (by decide) (by omega)] at h
      obtain ⟨c, ds, hds⟩ : ∃ c ds, Nat.toDigits 10 (n / 10) = c :: ds :=
        List.exists_cons_of_ne_nil Nat.toDigits_ne_nil
      rw [hds, List.cons_append] at h
      rw [(List.cons.inj h).1] at hds
      have := ih (n / 10) (by omega) hds
      omega

theorem spanDigits_toDigits (n : Nat) :
    spanDigits (Nat.toDigits 10 n) = (Nat.toDigits 10 n, []) := by
  have hdigits : ∀ c ∈ Nat.toDigits 10 n, c.isDigit = true :=
    fun c hc => Nat.isDigit_of_mem_toDigits (by decide) (by decide) hc
  have htake : (Nat.toDigits 10 n ++ []).takeWhile Char.isDigit = Nat.toDigits 10 n ++ [] :=
    List.takeWhile_append_of_pos hdigits
  have hdrop : (Nat.toDigits 10 n ++ []).dropWhile Char.isDigit = [] :=
    List.dropWhile_append_of_pos hdigits
  rw [List.append_nil] at htake hdrop
  rw [spanDigits, htake, hdrop]

theorem spanMagnitude?_toDigits (minus : List Char) (n : Nat) :
    spanMagnitude? minus (Nat.toDigits 10 n) = some (minus ++ Nat.toDigits 10 n, []) := by
  have hwhole : spanWhole? (Nat.toDigits 10 n) = some (Nat.toDigits 10 n, []) := by
    refine spanWhole?_eq_some.2 ⟨spanDigits_toDigits n, Nat.toDigits_ne_nil, fun c ds h => ?_⟩
    rw [eq_zero_of_toDigits h, Nat.toDigits_zero] at h
    cases h
  exact spanMagnitude?_eq_some.2 ⟨_, [], [], [], [], hwhole, rfl, rfl, by simp⟩

theorem head?_toDigits_ne {n : Nat} {c : Char} (hc : c.isDigit = false) :
    (Nat.toDigits 10 n).head? ≠ some c := by
  intro h
  have hdigit : c.isDigit = true :=
    Nat.isDigit_of_mem_toDigits (by decide) (by decide) (List.mem_of_mem_head? h)
  rw [hc] at hdigit
  cases hdigit

/-- **A written integer is found.** -/
theorem spanNumber?_chars (i : Int) :
    spanNumber? (Numeral.chars i) = some (Numeral.chars i, []) := by
  unfold Numeral.chars
  split
  · exact spanMagnitude?_toDigits ['-'] i.natAbs
  · rw [spanNumber?_of_head? (head?_toDigits_ne rfl)]
    exact spanMagnitude?_toDigits [] i.natAbs

end Document

namespace Number

theorem parts_chars (i : Int) :
    parts (Numeral.chars i) = ⟨decide (i < 0), Nat.toDigits 10 i.natAbs, none, none⟩ := by
  unfold Numeral.chars
  by_cases hi : i < 0
  · rw [if_pos hi, decide_eq_true hi]
    simp only [parts, Document.spanDigits_toDigits]
  · rw [if_neg hi, decide_eq_false hi]
    have hspan := Document.spanDigits_toDigits i.natAbs
    obtain ⟨c, ds, hds⟩ : ∃ c ds, Nat.toDigits 10 i.natAbs = c :: ds :=
      List.exists_cons_of_ne_nil Nat.toDigits_ne_nil
    have hc : c ≠ '-' := by
      rintro rfl
      exact Document.head?_toDigits_ne rfl (congrArg List.head? hds)
    rw [hds] at hspan ⊢
    simp [parts, hc, hspan]

theorem ofLiteral?_chars_natural {n : Nat} (h : n < UInt64.size) :
    ofLiteral? (Numeral.chars n) = some (.natural (UInt64.ofNat n)) := by
  have hvalue : Nat.ofDigitChars 10 (Nat.toDigits 10 n) 0 = n :=
    Nat.ofDigitChars_toDigits (by decide) (by decide)
  have hsign : ¬ (n : Int) < 0 := by omega
  simp [ofLiteral?, parts_chars, hvalue, hsign, h]

theorem ofLiteral?_chars_negative {i : Int} (hi : i < 0) (h : -0x8000000000000000 ≤ i) :
    ofLiteral? (Numeral.chars i) = some (.negative (Int64.ofInt i)) := by
  have hvalue : Nat.ofDigitChars 10 (Nat.toDigits 10 i.natAbs) 0 = i.natAbs :=
    Nat.ofDigitChars_toDigits (by decide) (by decide)
  have hsize : i.natAbs < UInt64.size := by
    unfold UInt64.size
    omega
  have hrange : ¬ (i.natAbs = 0 ∨ 0x8000000000000000 < i.natAbs) := by omega
  have habs : -(i.natAbs : Int) = i := by omega
  simp only [ofLiteral?, parts_chars, hvalue, decide_eq_true hi, Option.isSome_none, Bool.or_self,
    Bool.false_or, decide_eq_true_eq, Nat.not_le.2 hsize, if_false, Bool.not_true,
    Bool.false_eq_true, hrange, habs]

/-- **A literal with a character other than a digit is a floating-point number.** -/
theorem ofLiteral?_of_mark {literal : List Char}
    (h : ∃ c ∈ literal, c.isDigit = false ∧ c ≠ '-') :
    ofLiteral? literal = (float? (parts literal)).map .float := by
  have hmark : ((parts literal).fraction.isSome || (parts literal).exponent.isSome) = true := by
    unfold parts
    split
    rename_i minus cs hsign
    have hcs : ∃ c ∈ cs, c.isDigit = false := by
      obtain ⟨c, hc, hdigit, hminus⟩ := h
      split at hsign
      · obtain ⟨-, rfl⟩ := Prod.mk.inj hsign
        exact ⟨c, (List.mem_cons.1 hc).resolve_left hminus, hdigit⟩
      · obtain ⟨-, rfl⟩ := Prod.mk.inj hsign
        exact ⟨c, hc, hdigit⟩
    obtain ⟨whole, d, rest, hspan⟩ := Document.exists_rest_of_spanDigits hcs
    simp only [hspan]
    split
    · rfl
    · split
      · rfl
      · rfl
      · rfl
      · rename_i hnil
        cases hnil
  simp only [ofLiteral?, hmark, Bool.true_or, if_true]

end Number

/-! ## Floating-point numbers -/

/-- The number is finite and is read back from its own text. -/
def Binary64.Survives (x : Binary64) : Prop :=
  x.isFinite = true ∧ (Document.parse (Layout.json.write x)).bind Document.toFloat? = some x

namespace Document

theorem isBlank_eq_false {c : Char} (h : isNumberChar c) : isBlank c = false := by
  cases hblank : isBlank c with
  | false => rfl
  | true =>
    simp only [isBlank, Bool.or_eq_true, decide_eq_true_eq] at hblank
    rcases hblank with ((rfl | rfl) | rfl) | rfl <;> revert h <;> decide

theorem skipBlanks_of_isNumeric {cs : List Char} (h : IsNumeric cs) : skipBlanks cs = cs := by
  cases cs with
  | nil => rfl
  | cons c cs => simp [skipBlanks, isBlank_eq_false (h c List.mem_cons_self)]

theorem spanNumber?_of_value? {fuel : Nat} {cs lit rest : List Char}
    (h : value? fuel cs = some (.number lit, rest)) :
    spanNumber? (skipBlanks cs) = some (lit, rest) := by
  cases fuel with
  | zero => cases h
  | succ fuel =>
    rw [value?] at h
    split at h
    · cases h
    · cases h
    · cases h
    · simp [Option.bind_eq_some_iff] at h
    · split at h <;> simp [Option.bind_eq_some_iff] at h
    · split at h <;> simp [Option.bind_eq_some_iff] at h
    · simp only [Option.bind_eq_bind, Option.bind_eq_some_iff, Prod.exists, Option.pure_def,
        Option.some.injEq, Prod.mk.injEq, number.injEq] at h
      obtain ⟨_, _, hspan, rfl, rfl⟩ := h
      exact hspan

/-- A text of number characters that is read as a number is one from end to end. -/
theorem spanNumber?_of_parse {text : String} {lit : List Char} (hnumeric : IsNumeric text.toList)
    (h : parse text = some (.number lit)) : spanNumber? text.toList = some (text.toList, []) ∧
      lit = text.toList := by
  unfold parse parseChars at h
  cases hvalue : value? (text.toList.length + 1) text.toList with
  | none =>
    rw [hvalue] at h
    cases h
  | some found =>
    obtain ⟨document, rest⟩ := found
    simp only [hvalue, Option.ite_none_right_eq_some, Option.some.injEq] at h
    obtain ⟨hrest, rfl⟩ := h
    have hspan := spanNumber?_of_value? hvalue
    rw [skipBlanks_of_isNumeric hnumeric] at hspan
    obtain ⟨hparts, -⟩ := steady_spanNumber? _ _ _ hspan
    have hblank : rest = [] := by
      have hall : IsNumeric rest := fun c hc => hnumeric c (hparts ▸ List.mem_append_right _ hc)
      rw [skipBlanks_of_isNumeric hall] at hrest
      exact List.isEmpty_iff.1 hrest
    rw [hblank, List.append_nil] at hparts
    rw [hblank, hparts] at hspan
    exact ⟨hspan, hparts⟩

end Document

/-- **A number that survives is found in a text, and denotes itself.** -/
theorem Binary64.Survives.reads {x : Binary64} (h : x.Survives) :
    Document.spanNumber? (Layout.json.write x).toList = some ((Layout.json.write x).toList, []) ∧
      Number.ofLiteral? (Layout.json.write x).toList = some (.float x) := by
  obtain ⟨document, hparse, hread⟩ := Option.bind_eq_some_iff.1 h.2
  cases document with
  | number lit =>
    obtain ⟨hspan, rfl⟩ :=
      Document.spanNumber?_of_parse (Layout.isNumeric_write Layout.json x).1 hparse
    refine ⟨hspan, ?_⟩
    have hfloat := Number.ofLiteral?_of_mark (Layout.exists_mark_write (l := .json) rfl x)
    rw [hfloat]
    simp only [Document.toFloat?, Document.toNumber?, hfloat] at hread
    cases hvalue : Number.float? (Number.parts (Layout.json.write x).toList) with
    | none =>
      rw [hvalue] at hread
      cases hread
    | some y =>
      rw [hvalue] at hread
      exact congrArg (fun o => o.map Number.float) hread
  | _ => simp [Document.toFloat?, Document.toNumber?] at hread

end TraversalPlan

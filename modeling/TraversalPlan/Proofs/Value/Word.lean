import TraversalPlan.Proofs.Expression.Lexing

/-!
# Literals are single operands

* `Numeral.isNumeric_chars`, `Layout.isNumeric_write`: the characters of a number.
* `Layout.exists_mark_write`: what tells a floating-point number from an integer.
* `Value.stays_chars`: brackets and quotes of a literal are closed, and no blank or parenthesis of it
  stands outside of them.
* **`Value.isOperand_text`**: a literal is one operand of an expression, whatever its strings hold.
-/

namespace TraversalPlan

open TraversalPlan.Expr

/-! ## Numbers -/

/-- A character of a number in any notation. -/
def isNumberChar (c : Char) : Bool :=
  c.isDigit || ['.', '-', '+', 'e', 'i', 'n', 'f', 'N', 'a'].contains c

/-- Every character is one of a number. -/
def IsNumeric (cs : List Char) : Prop := ∀ c ∈ cs, isNumberChar c

namespace IsNumeric

theorem cons {c : Char} {cs : List Char} (hc : isNumberChar c) (h : IsNumeric cs) :
    IsNumeric (c :: cs) :=
  List.forall_mem_cons.2 ⟨hc, h⟩

theorem append {as bs : List Char} (ha : IsNumeric as) (hb : IsNumeric bs) :
    IsNumeric (as ++ bs) :=
  List.forall_mem_append.2 ⟨ha, hb⟩

theorem digits (n : Nat) : IsNumeric (Nat.toDigits 10 n) := by
  intro c hc
  have hdigit : c.isDigit := Nat.isDigit_of_mem_toDigits (by decide) (by decide) hc
  rw [isNumberChar, hdigit]
  rfl

theorem isPlain {cs : List Char} (h : IsNumeric cs) : ∀ c ∈ cs, IsPlain c := by
  intro c hc hmem
  have hnumber := h c hc
  simp only [List.mem_cons, List.not_mem_nil, or_false] at hmem
  rcases hmem with rfl | rfl | rfl | rfl | rfl | rfl <;> revert hnumber <;> decide

theorem not_mem_keywords {cs : List Char} (h : IsNumeric cs) : cs ∉ keywords := by
  intro hmem
  have hkeyword : ∀ k ∈ keywords, ¬ k.all isNumberChar := by decide
  exact hkeyword cs hmem (List.all_eq_true.2 h)

theorem isOperand {cs : List Char} (h : IsNumeric cs) (hne : cs ≠ []) :
    IsOperand (String.ofList cs) := by
  obtain ⟨c, cs, rfl⟩ := List.exists_cons_of_ne_nil hne
  have hc := h c List.mem_cons_self
  refine IsOperand.of_stays (.of_plain h.isPlain 0) ⟨?_, ?_⟩ h.not_mem_keywords <;> rintro rfl <;>
    revert hc <;> decide

end IsNumeric

theorem Numeral.isNumeric_chars (i : Int) : IsNumeric (chars i) ∧ chars i ≠ [] := by
  unfold chars
  split
  · exact ⟨.cons (by decide) (.digits _), List.cons_ne_nil _ _⟩
  · exact ⟨.digits _, Nat.toDigits_ne_nil⟩

namespace Layout

theorem isNumeric_zeros (n : Nat) : IsNumeric (zeros n) := by
  intro c hc
  obtain rfl := List.eq_of_mem_replicate hc
  decide

theorem isNumeric_writePositional (l : Layout) (d : Decimal) :
    IsNumeric (l.writePositional d) ∧ l.writePositional d ≠ [] := by
  have hdigits : IsNumeric d.digitChars := .digits _
  dsimp only [writePositional]
  by_cases hsmall : d.leading < 0
  · rw [if_pos hsmall]
    exact ⟨.append (.cons (by decide) (.cons (by decide) (isNumeric_zeros _))) hdigits, nofun⟩
  rw [if_neg hsmall]
  by_cases hwhole : d.digitChars.length ≤ d.leading.toNat + 1
  · rw [if_pos hwhole]
    refine ⟨.append (.append hdigits (isNumeric_zeros _)) ?_, ?_⟩
    · split
      · exact .cons (by decide) (.cons (by decide) nofun)
      · exact nofun
    · simp [Decimal.digitChars, Nat.toDigits_ne_nil]
  · rw [if_neg hwhole]
    refine ⟨.append (fun c hc => hdigits c (List.mem_of_mem_take hc)) ?_, by simp⟩
    exact .cons (by decide) fun c hc => hdigits c (List.mem_of_mem_drop hc)

theorem isNumeric_writeExponent (l : Layout) (d : Decimal) :
    IsNumeric (l.writeExponent d) ∧ l.writeExponent d ≠ [] := by
  have hdigits : IsNumeric d.digitChars := .digits _
  dsimp only [writeExponent]
  refine ⟨.append (.append ?_ (.cons (by decide) ?_)) (.digits _), by simp⟩
  · split
    · exact nofun
    · rename_i hone
      exact hone ▸ hdigits
    · rename_i c r _ hmore
      rw [hmore] at hdigits
      obtain ⟨hc, hr⟩ := List.forall_mem_cons.1 hdigits
      exact .cons hc (.cons (by decide) hr)
  · split
    · exact .cons (by decide) nofun
    · split
      · exact .cons (by decide) nofun
      · exact nofun

/-- **What holds of the forms of a number's text holds of the text**: of the words, of digits with
and without an exponent, and behind a sign. -/
theorem write_of_forms {P : List Char → Prop} (l : Layout) (x : Binary64) (nan : P ['N', 'a', 'N'])
    (inf : P ['i', 'n', 'f']) (positional : ∀ d, P (l.writePositional d))
    (exponent : ∀ d, P (l.writeExponent d)) (sign : ∀ cs, P cs → P ('-' :: cs)) :
    P (l.write x).toList := by
  have hsign : ∀ {cs : List Char}, P cs → P (if x.negative then '-' :: cs else cs) := by
    intro cs hcs
    split
    · exact sign cs hcs
    · exact hcs
  dsimp only [write]
  by_cases h : x.isNaN
  · rw [if_pos h]
    exact nan
  rw [if_neg h, String.toList_ofList]
  refine hsign ?_
  split
  · exact inf
  split
  · exact positional _
  · rcases l.writeDecimal_eq_or (x.shortest l.tie) with h | h <;> rw [h]
    · exact positional _
    · exact exponent _

theorem isNumeric_write (l : Layout) (x : Binary64) :
    IsNumeric (l.write x).toList ∧ (l.write x).toList ≠ [] := by
  have hword : ∀ {c : Char} {cs : List Char}, (c :: cs).all isNumberChar = true →
      IsNumeric (c :: cs) ∧ c :: cs ≠ [] := fun h => ⟨List.all_eq_true.1 h, List.cons_ne_nil _ _⟩
  exact l.write_of_forms (P := fun cs => IsNumeric cs ∧ cs ≠ []) x (hword (by decide))
    (hword (by decide)) l.isNumeric_writePositional l.isNumeric_writeExponent
    fun cs hcs => ⟨.cons (by decide) hcs.1, List.cons_ne_nil _ _⟩

/-- Where an integer is written with a point, every floating-point number is written with a point or
an exponent. -/
theorem exists_mark_write {l : Layout} (hpoint : l.pointZero = true) (x : Binary64) :
    ∃ c ∈ (l.write x).toList, c.isDigit = false ∧ c ≠ '-' := by
  refine l.write_of_forms (P := fun cs => ∃ c ∈ cs, c.isDigit = false ∧ c ≠ '-') x
    ⟨'N', by decide, by decide⟩ ⟨'i', by decide, by decide⟩ (fun d => ⟨'.', ?_, by decide⟩)
    (fun d => ⟨'e', by simp [writeExponent], by decide⟩) ?_
  · dsimp only [writePositional]
    split
    · simp
    · split <;> simp
  · rintro cs ⟨c, hc, hmark⟩
    exact ⟨c, List.mem_cons_of_mem _ hc, hmark⟩

end Layout

/-! ## Strings and lists -/

namespace Value

/-- A backslash before a quote or a backslash leaves the literal open. -/
theorem stays_quoteChar (d : Nat) (c : Char) : Stays (.quoted d) (quoteChar c) := by
  unfold quoteChar
  split
  · exact ⟨⟨rfl, rfl, trivial⟩, rfl⟩
  · rename_i hc
    rw [not_or] at hc
    have hafter : (Place.quoted d).after c = .quoted d := by
      rw [Place.after, if_neg hc.1, if_neg hc.2]
    exact ⟨⟨rfl, trivial⟩, hafter⟩

theorem stays_quote (d : Nat) (s : String) : Stays (.bare d) (quote s) := by
  have hbody : Stays (.quoted d) (s.toList.flatMap quoteChar) := by
    induction s.toList with
    | nil => exact .nil _
    | cons c cs ih => exact (stays_quoteChar d c).append ih
  have hunbroken : Unbroken (.quoted d) (s.toList.flatMap quoteChar ++ ['"']) := by
    refine hbody.unbroken.append ?_
    rw [hbody.along]
    exact ⟨rfl, trivial⟩
  refine ⟨⟨?_, hunbroken⟩, ?_⟩
  · simp [Place.breaks]
  · have hopen : (Place.bare d).after '"' = .quoted d := rfl
    rw [quote, List.cons_append, Place.along_cons, hopen, Place.along_append, hbody.along]
    rfl

mutual

/-- **A literal is read through**, at whatever depth of brackets. -/
theorem stays_chars (v : Value) (d : Nat) : Stays (.bare d) v.chars := by
  cases v with
  | null => exact .of_plain (by simp [chars, IsPlain]) d
  | bool b => cases b <;> exact .of_plain (by simp [chars, IsPlain]) d
  | int i => exact .of_plain (Numeral.isNumeric_chars i.toInt).1.isPlain d
  | float x => exact .of_plain (Layout.isNumeric_write _ x).1.isPlain d
  | string s => exact stays_quote d s
  | list items =>
    have hitems := stays_itemChars items d
    have hclose : Unbroken ((Place.bare (d + 1)).along (itemChars items)) [']'] := by
      rw [hitems.along]
      exact ⟨by simp [Place.breaks], trivial⟩
    refine ⟨⟨by simp [Place.breaks], hitems.unbroken.append hclose⟩, ?_⟩
    have hopen : (Place.bare d).after '[' = .bare (d + 1) := rfl
    rw [chars, List.cons_append, Place.along_cons, hopen, Place.along_append, hitems.along]
    rfl

/-- The items of a list stand inside its brackets, where a blank ends no word. -/
theorem stays_itemChars (items : List Value) (d : Nat) :
    Stays (.bare (d + 1)) (itemChars items) := by
  match items with
  | [] => exact .nil _
  | [v] => exact stays_chars v (d + 1)
  | v :: w :: items =>
    have hcomma : Stays (.bare (d + 1)) [',', ' '] := ⟨⟨rfl, rfl, trivial⟩, rfl⟩
    have hrest := stays_itemChars (w :: items) d
    exact (stays_chars v (d + 1)).append (hcomma.append hrest)

end

/-- **A literal is one operand** of an expression. -/
theorem isOperand_text (v : Value) : IsOperand v.text := by
  cases v with
  | null => exact .of_stays (stays_chars .null 0) (by decide) (by decide)
  | bool b =>
    cases b
    · exact .of_stays (stays_chars (.bool false) 0) (by decide) (by decide)
    · exact .of_stays (stays_chars (.bool true) 0) (by decide) (by decide)
  | int i =>
    obtain ⟨hnumeric, hne⟩ := Numeral.isNumeric_chars i.toInt
    exact hnumeric.isOperand hne
  | float x =>
    obtain ⟨hnumeric, hne⟩ := Layout.isNumeric_write .literal x
    exact hnumeric.isOperand hne
  | string s =>
    refine .of_stays (stays_chars (.string s) 0) (by decide) fun hmem => ?_
    exact (by decide : ∀ k ∈ keywords, '"' ∉ k) _ hmem List.mem_cons_self
  | list items =>
    refine .of_stays (stays_chars (.list items) 0) (by decide) fun hmem => ?_
    exact (by decide : ∀ k ∈ keywords, '[' ∉ k) _ hmem List.mem_cons_self

end Value
end TraversalPlan

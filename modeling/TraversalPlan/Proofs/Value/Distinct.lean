import TraversalPlan.Proofs.Binary64.Writing
import TraversalPlan.Proofs.Value.Word

/-!
# Different values have different literals

A literal can be read back: a quoted string ends at the first quote without a backslash, a list at the
bracket that stands where an item would begin or go on, and any other literal where its characters
end. So a literal says where it ends in front of a comma or a closing bracket, and no two values
without a not-a-number have the same text (**`Value.text_inj`**).

* `Value.hasNaN`: a number in the value is a not-a-number, at whatever depth of lists.
* `Value.EndsItem`: what may stand behind an item of a list.
* `Value.scalar_append_inj`: literals other than strings and lists.
* `Value.chars_append_inj`, `Value.itemChars_append_inj`: any literal, and the items of a list up to
  its bracket.
-/

namespace TraversalPlan.Value

mutual

/-- A number in the value is a not-a-number. -/
def hasNaN : Value → Bool
  | float x => x.isNaN
  | list items => anyHasNaN items
  | _ => false

def anyHasNaN : List Value → Bool
  | [] => false
  | v :: vs => hasNaN v || anyHasNaN vs

end

/-- The value is neither a string nor a list. -/
def isScalar : Value → Bool
  | string _ => false
  | list _ => false
  | _ => true

/-- A character of a literal that is neither a string nor a list. -/
def isScalarChar (c : Char) : Bool := isNumberChar c || ['u', 'l', 't', 'r', 's'].contains c

/-- What stands behind an item of a list: a comma, the closing bracket or nothing. -/
def EndsItem (r : List Char) : Prop := ∀ c ∈ r.head?, c = ',' ∨ c = ']'

theorem endsItem_nil : EndsItem [] := nofun

theorem EndsItem.not_isScalarChar {r : List Char} (h : EndsItem r) :
    ∀ c ∈ r.head?, isScalarChar c = false := by
  intro c hc
  rcases h c hc with rfl | rfl <;> decide

variable {v w : Value} {r s : List Char}

/-! ## Numbers and words -/

theorem isDigit_or_eq_of_mem_chars {i : Int} {c : Char} (hc : c ∈ Numeral.chars i) :
    c.isDigit = true ∨ c = '-' := by
  have hdigit : ∀ {n : Nat}, c ∈ Nat.toDigits 10 n → c.isDigit = true :=
    Nat.isDigit_of_mem_toDigits (by decide) (by decide)
  unfold Numeral.chars at hc
  split at hc
  · rcases List.mem_cons.1 hc with rfl | hc
    · exact .inr rfl
    · exact .inl (hdigit hc)
  · exact .inl (hdigit hc)

/-- The text of an integer is none of a floating-point number. -/
theorem chars_int_ne_chars_float (i : Int64) (x : Binary64) : (int i).chars ≠ (float x).chars := by
  intro h
  obtain ⟨c, hc, hdigit, hminus⟩ := Layout.exists_mark_write (l := .literal) rfl x
  rw [chars, chars] at h
  rw [← h] at hc
  rcases isDigit_or_eq_of_mem_chars hc with hc | hc
  · rw [hc] at hdigit
    cases hdigit
  · exact hminus hc

theorem isNumeric_of_number (h : (∃ i, v = int i) ∨ ∃ x, v = float x) :
    IsNumeric v.chars ∧ v.chars ≠ [] := by
  rcases h with ⟨i, rfl⟩ | ⟨x, rfl⟩
  · exact Numeral.isNumeric_chars i.toInt
  · exact Layout.isNumeric_write _ x

/-- The words `null`, `true` and `false` have letters that no number has. -/
theorem not_isNumeric_of_word (h : v = null ∨ ∃ b, v = bool b) : ¬ IsNumeric v.chars := by
  have hword : ∀ {cs : List Char}, cs.all isNumberChar = false → ¬ IsNumeric cs := by
    intro cs hcs hnumeric
    rw [List.all_eq_true.2 hnumeric] at hcs
    cases hcs
  rcases h with rfl | ⟨b, rfl⟩
  · exact hword (by decide)
  · cases b <;> exact hword (by decide)

theorem number_or_word (h : v.isScalar = true) :
    ((∃ i, v = int i) ∨ ∃ x, v = float x) ∨ v = null ∨ ∃ b, v = bool b := by
  cases v with
  | null => exact .inr (.inl rfl)
  | bool b => exact .inr (.inr ⟨b, rfl⟩)
  | int i => exact .inl (.inl ⟨i, rfl⟩)
  | float x => exact .inl (.inr ⟨x, rfl⟩)
  | string s => cases h
  | list items => cases h

theorem eq_of_number_chars (hv : (∃ i, v = int i) ∨ ∃ x, v = float x)
    (hw : (∃ i, w = int i) ∨ ∃ x, w = float x) (hvn : v.hasNaN = false) (hwn : w.hasNaN = false)
    (h : v.chars = w.chars) : v = w := by
  rcases hv with ⟨i, rfl⟩ | ⟨x, rfl⟩ <;> rcases hw with ⟨j, rfl⟩ | ⟨y, rfl⟩
  · have htext : Numeral.text i.toInt = Numeral.text j.toInt := congrArg String.ofList h
    have hread := Numeral.intOf?_text i.toInt
    rw [htext, Numeral.intOf?_text] at hread
    rw [Int64.toInt_inj.1 (Option.some.inj hread)]
  · exact absurd h (chars_int_ne_chars_float i y)
  · exact absurd h.symm (chars_int_ne_chars_float j x)
  · rw [Layout.literal.write_inj hvn hwn (String.toList_inj.1 h)]

theorem eq_of_word_chars (hv : v = null ∨ ∃ b, v = bool b) (hw : w = null ∨ ∃ b, w = bool b)
    (h : v.chars = w.chars) : v = w := by
  rcases hv with rfl | ⟨_ | _, rfl⟩ <;> rcases hw with rfl | ⟨_ | _, rfl⟩ <;>
    first | rfl | simp [chars] at h

/-! ## Literals other than strings and lists -/

theorem chars_of_isScalar (h : v.isScalar = true) :
    (∀ c ∈ v.chars, isScalarChar c = true) ∧ v.chars ≠ [] := by
  rcases number_or_word h with h | rfl | ⟨b, rfl⟩
  · obtain ⟨hnumeric, hne⟩ := isNumeric_of_number h
    exact ⟨fun c hc => by rw [isScalarChar, hnumeric c hc, Bool.true_or], hne⟩
  · exact ⟨List.all_eq_true.1 (by decide), nofun⟩
  · cases b <;> exact ⟨List.all_eq_true.1 (by decide), nofun⟩

theorem eq_of_scalar_chars (hv : v.isScalar = true) (hw : w.isScalar = true)
    (hvn : v.hasNaN = false) (hwn : w.hasNaN = false) (h : v.chars = w.chars) : v = w := by
  rcases number_or_word hv with hv | hv <;> rcases number_or_word hw with hw | hw
  · exact eq_of_number_chars hv hw hvn hwn h
  · exact absurd (h ▸ (isNumeric_of_number hv).1) (not_isNumeric_of_word hw)
  · exact absurd (h ▸ (isNumeric_of_number hw).1) (not_isNumeric_of_word hv)
  · exact eq_of_word_chars hv hw h

theorem exists_scalarChar_of_isScalar (h : v.isScalar = true) :
    ∃ c cs, v.chars = c :: cs ∧ isScalarChar c = true := by
  obtain ⟨hchars, hne⟩ := chars_of_isScalar h
  obtain ⟨c, cs, hcs⟩ := List.exists_cons_of_ne_nil hne
  exact ⟨c, cs, hcs, hchars c (hcs ▸ List.mem_cons_self)⟩

/-- A string or a list opens with a mark that no other literal has. -/
theorem exists_mark_of_not_isScalar (h : w.isScalar = false) :
    ∃ c cs, w.chars = c :: cs ∧ isScalarChar c = false ∧ c ≠ ']' := by
  cases w with
  | string s => exact ⟨'"', _, rfl, by decide, by decide⟩
  | list items => exact ⟨'[', _, rfl, by decide, by decide⟩
  | _ => cases h

/-- **A literal other than a string or a list ends where its characters do.** -/
theorem scalar_append_inj (hv : v.isScalar = true) (hvn : v.hasNaN = false)
    (hwn : w.hasNaN = false) (hr : EndsItem r) (hs : EndsItem s)
    (h : v.chars ++ r = w.chars ++ s) : v = w ∧ r = s := by
  have hw : w.isScalar = true := by
    by_contra hw
    obtain ⟨c, cs, hcs, hc⟩ := exists_scalarChar_of_isScalar hv
    obtain ⟨d, ds, hds, hd, -⟩ := exists_mark_of_not_isScalar (Bool.not_eq_true _ ▸ hw)
    rw [hcs, hds, List.cons_append, List.cons_append] at h
    rw [(List.cons.inj h).1, hd] at hc
    cases hc
  obtain ⟨hchars, hrs⟩ := run_append_inj (chars_of_isScalar hv).1 (chars_of_isScalar hw).1
    hr.not_isScalarChar hs.not_isScalarChar h
  exact ⟨eq_of_scalar_chars hv hw hvn hwn hchars, hrs⟩

/-! ## Strings and lists -/

/-- A string ends at the first quote without a backslash. -/
theorem quote_append_inj {a b : String} (h : quote a ++ r = quote b ++ s) : a = b ∧ r = s := by
  rw [quote, quote, List.cons_append, List.cons_append, List.append_assoc, List.append_assoc] at h
  obtain ⟨hab, hrs⟩ := escape_append_inj (by decide) (List.cons.inj h).2
  exact ⟨String.toList_inj.1 hab, hrs⟩

theorem chars_append_ne (v : Value) (r s : List Char) : v.chars ++ r ≠ ']' :: s := by
  intro h
  cases hv : v.isScalar with
  | true =>
    obtain ⟨c, cs, hcs, hc⟩ := exists_scalarChar_of_isScalar hv
    rw [hcs, List.cons_append] at h
    rw [(List.cons.inj h).1] at hc
    revert hc
    decide
  | false =>
    obtain ⟨c, cs, hcs, -, hne⟩ := exists_mark_of_not_isScalar hv
    rw [hcs, List.cons_append] at h
    exact hne (List.cons.inj h).1

/-- What stands behind the first item of a list, up to the closing bracket. -/
def afterFirst : List Value → List Char
  | [] => []
  | vs => ',' :: ' ' :: itemChars vs

theorem itemChars_cons (v : Value) (vs : List Value) :
    itemChars (v :: vs) = v.chars ++ afterFirst vs := by
  cases vs with
  | nil => exact (List.append_nil _).symm
  | cons w vs => rfl

theorem endsItem_afterFirst (vs : List Value) (r : List Char) :
    EndsItem (afterFirst vs ++ ']' :: r) := by
  intro c hc
  cases vs with
  | nil => exact .inr (Option.some.inj hc).symm
  | cons v vs => exact .inl (Option.some.inj hc).symm

mutual

/-- **A literal is read off the text that it begins**, where an item may end. -/
theorem chars_append_inj (v w : Value) (hv : v.hasNaN = false) (hw : w.hasNaN = false)
    {r s : List Char} (hr : EndsItem r) (hs : EndsItem s) (h : v.chars ++ r = w.chars ++ s) :
    v = w ∧ r = s := by
  cases hvs : v.isScalar with
  | true => exact scalar_append_inj hvs hv hw hr hs h
  | false =>
    cases hws : w.isScalar with
    | true =>
      obtain ⟨hwv, hsr⟩ := scalar_append_inj hws hw hv hs hr h.symm
      exact ⟨hwv.symm, hsr.symm⟩
    | false =>
      cases v with
      | string a =>
        cases w with
        | string b =>
          obtain ⟨hab, hrs⟩ := quote_append_inj h
          exact ⟨by rw [hab], hrs⟩
        | list items => cases (List.cons.inj h).1
        | _ => cases hws
      | list items =>
        cases w with
        | string b => cases (List.cons.inj h).1
        | list items' =>
          rw [chars, chars, List.cons_append, List.cons_append, List.append_assoc,
            List.append_assoc] at h
          obtain ⟨hitems, hrs⟩ := itemChars_append_inj items items' hv hw (List.cons.inj h).2
          exact ⟨by rw [hitems], hrs⟩
        | _ => cases hws
      | _ => cases hvs

theorem itemChars_append_inj (vs ws : List Value) (hvs : anyHasNaN vs = false)
    (hws : anyHasNaN ws = false) {r s : List Char}
    (h : itemChars vs ++ ']' :: r = itemChars ws ++ ']' :: s) : vs = ws ∧ r = s := by
  match vs, ws with
  | [], [] => exact ⟨rfl, (List.cons.inj h).2⟩
  | [], w :: ws =>
    rw [itemChars_cons, List.append_assoc] at h
    exact absurd h.symm (chars_append_ne w _ _)
  | v :: vs, [] =>
    rw [itemChars_cons, List.append_assoc] at h
    exact absurd h (chars_append_ne v _ _)
  | v :: vs, w :: ws =>
    rw [itemChars_cons, itemChars_cons, List.append_assoc, List.append_assoc] at h
    obtain ⟨hv, hvs⟩ := Bool.or_eq_false_iff.1 hvs
    obtain ⟨hw, hws⟩ := Bool.or_eq_false_iff.1 hws
    obtain ⟨hvw, hrest⟩ := chars_append_inj v w hv hw (endsItem_afterFirst vs r)
      (endsItem_afterFirst ws s) h
    have hitems : vs = ws ∧ r = s := by
      match vs, ws with
      | [], [] => exact ⟨rfl, (List.cons.inj hrest).2⟩
      | [], w :: ws => cases (List.cons.inj hrest).1
      | v :: vs, [] => cases (List.cons.inj hrest).1
      | v :: vs, w :: ws =>
        exact itemChars_append_inj (v :: vs) (w :: ws) hvs hws
          (List.cons.inj (List.cons.inj hrest).2).2
    exact ⟨by rw [hvw, hitems.1], hitems.2⟩

end

/-- **Different values have different literals.** A literal says where it ends: whatever follows it
where an item may end, no other value and no other rest give the same text. In a list the items and
its bracket are told apart, whatever follows the list. -/
theorem text_inj {v w : Value} (hv : v.hasNaN = false) (hw : w.hasNaN = false) :
    (v.text = w.text → v = w) ∧
      (∀ r s, EndsItem r → EndsItem s → v.chars ++ r = w.chars ++ s → v = w ∧ r = s) ∧
      ∀ vs ws r s, anyHasNaN vs = false → anyHasNaN ws = false →
        itemChars (v :: vs) ++ ']' :: r = itemChars (w :: ws) ++ ']' :: s →
          v = w ∧ vs = ws ∧ r = s := by
  refine ⟨fun h => ?_, fun r s hr hs h => chars_append_inj v w hv hw hr hs h, ?_⟩
  · have hchars : v.chars ++ [] = w.chars ++ [] := by
      rw [List.append_nil, List.append_nil]
      exact String.ofList_inj.1 h
    exact (chars_append_inj v w hv hw endsItem_nil endsItem_nil hchars).1
  · intro vs ws r s hvs hws h
    have hitems := itemChars_append_inj (v :: vs) (w :: ws) (Bool.or_eq_false_iff.2 ⟨hv, hvs⟩)
      (Bool.or_eq_false_iff.2 ⟨hw, hws⟩) h
    obtain ⟨hvw, hrest⟩ := List.cons.inj hitems.1
    exact ⟨hvw, hrest, hitems.2⟩

/-- A list whose only string holds what stands between two items. -/
def oneItem : Value := list [string "a\", \"b", list [float ⟨0x8000000000000000⟩, int 0]]

/-- The items that this string looks like. -/
def twoItems : Value := list [string "a", string "b", list [float ⟨0x8000000000000000⟩, int 0]]

theorem text_inj_oneItem :
    oneItem.text = "[\"a\\\", \\\"b\", [-0.0, 0]]" ∧ twoItems.text = "[\"a\", \"b\", [-0.0, 0]]" ∧
      oneItem.hasNaN = false ∧ twoItems.hasNaN = false ∧ oneItem.text ≠ twoItems.text := by
  have hone : oneItem.hasNaN = false := by decide
  have htwo : twoItems.hasNaN = false := by decide
  refine ⟨rfl, rfl, hone, htwo, fun h => ?_⟩
  have heq := (text_inj hone htwo).1 h
  cases (List.cons.inj (Value.list.inj heq)).2

end TraversalPlan.Value

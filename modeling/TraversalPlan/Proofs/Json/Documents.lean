import TraversalPlan.Json.Basic
import TraversalPlan.Proofs.Json.Numbers
import TraversalPlan.Proofs.Json.Strings

/-!
# Reading back what is written

The text of a JSON value is read as the document that spells it. Every token says by its first
character what it is and ends where it is written to end, so this holds in front of whatever cannot go
on with a number, and by induction of arrays and objects.

* `Json.document`: the value as a document, with its literals as they are written.
* `Json.Prints`: every floating-point number in the value is read back from its own text.
* `Json.depth`: how many brackets are open at once in the text.
* `Document.value?_compactChars`: one value in front of more text.
* **`Document.parse_compact`**: the text of a value is read as its document.
-/

namespace TraversalPlan

namespace Json

mutual

/-- The document that spells the value. -/
def document : Json → Document
  | .null => .null
  | .bool b => .bool b
  | .int i => .number (Numeral.chars i)
  | .float x => .number (Layout.json.write x).toList
  | .str s => .string (Quoted.encode s.toList)
  | .arr items => .array (documents items)
  | .obj fields => .object (fieldDocuments fields)

def documents : List Json → List Document
  | [] => []
  | j :: js => document j :: documents js

def fieldDocuments : List (String × Json) → List (List Char × Document)
  | [] => []
  | (key, j) :: fields => (Quoted.encode key.toList, document j) :: fieldDocuments fields

end

mutual

/-- Every floating-point number in the value survives. -/
def Prints : Json → Prop
  | .float x => x.Survives
  | .arr items => AllPrint items
  | .obj fields => FieldsPrint fields
  | _ => True

def AllPrint : List Json → Prop
  | [] => True
  | j :: js => Prints j ∧ AllPrint js

def FieldsPrint : List (String × Json) → Prop
  | [] => True
  | (_, j) :: fields => Prints j ∧ FieldsPrint fields

end

mutual

/-- The most brackets that are open at once. -/
def depth : Json → Nat
  | .arr items => itemsDepth items + 1
  | .obj fields => fieldsDepth fields + 1
  | _ => 0

def itemsDepth : List Json → Nat
  | [] => 0
  | j :: js => max (depth j) (itemsDepth js)

def fieldsDepth : List (String × Json) → Nat
  | [] => 0
  | (_, j) :: fields => max (depth j) (fieldsDepth fields)

end

theorem compactItems_cons (item next : Json) (items : List Json) :
    compactItems (item :: next :: items) =
      compactChars item ++ ',' :: compactItems (next :: items) := by
  rw [compactItems]
  exact List.cons_ne_nil _ _

theorem compactFields_cons (key : String) (value : Json) (next : String × Json)
    (fields : List (String × Json)) :
    compactFields ((key, value) :: next :: fields) =
      quoteChars key ++ ':' :: (compactChars value ++ ',' :: compactFields (next :: fields)) := by
  rw [compactFields, List.append_assoc, List.cons_append]
  exact List.cons_ne_nil _ _

end Json

namespace Document

/-! ## Tokens -/

section

variable {cs tail : List Char}

theorem exists_head_of_spanNumber? {lit rest : List Char} (h : spanNumber? cs = some (lit, rest)) :
    ∃ c ds, cs = c :: ds ∧ (c = '-' ∨ c.isDigit = true) := by
  by_cases hminus : cs.head? = some '-'
  · obtain ⟨ds, rfl⟩ := List.head?_eq_some_iff.1 hminus
    exact ⟨'-', ds, rfl, .inl rfl⟩
  rw [spanNumber?_of_head? hminus] at h
  obtain ⟨whole, _, _, _, _, hwhole, -⟩ := spanMagnitude?_eq_some.1 h
  obtain ⟨hdigits, hne, -⟩ := spanWhole?_eq_some.1 hwhole
  have htake : cs.takeWhile Char.isDigit = whole := congrArg Prod.fst hdigits
  cases cs with
  | nil => exact absurd htake.symm hne
  | cons c ds =>
    refine ⟨c, ds, rfl, .inr ?_⟩
    cases hc : c.isDigit with
    | true => rfl
    | false =>
      rw [List.takeWhile_cons_of_neg (by simp [hc])] at htake
      exact absurd htake.symm hne

theorem skipBlanks_cons {c : Char} (h : isBlank c = false) : skipBlanks (c :: cs) = c :: cs := by
  simp [skipBlanks, h]

theorem ne_of_isDigit {c d : Char} (hc : c = '-' ∨ c.isDigit = true)
    (hd : (d = '-' || d.isDigit) = false) : c ≠ d := by
  rintro rfl
  rcases hc with rfl | hc
  · simp at hd
  · simp [hc] at hd

theorem isBlank_of_isDigit {c : Char} (hc : c = '-' ∨ c.isDigit = true) : isBlank c = false := by
  refine isBlank_eq_false ?_
  rcases hc with rfl | hc
  · rfl
  · simp [isNumberChar, hc]

theorem value?_number (h : spanNumber? cs = some (cs, [])) (htail : Ends tail) (fuel : Nat) :
    value? (fuel + 1) (cs ++ tail) = some (.number cs, tail) := by
  have hspan := (steady_spanNumber? _ _ _ h).2 tail fun _ => htail
  obtain ⟨c, ds, rfl, hc⟩ := exists_head_of_spanNumber? h
  have hne : ∀ d rest, (d = '-' || d.isDigit) = false → c :: ds ++ tail ≠ d :: rest :=
    fun d rest hd heq => ne_of_isDigit hc hd (List.cons.inj heq).1
  rw [value?, List.cons_append, skipBlanks_cons (isBlank_of_isDigit hc), ← List.cons_append]
  split
  · exact absurd ‹_› (hne 'n' _ rfl)
  · exact absurd ‹_› (hne 't' _ rfl)
  · exact absurd ‹_› (hne 'f' _ rfl)
  · exact absurd ‹_› (hne '"' _ rfl)
  · exact absurd ‹_› (hne '[' _ rfl)
  · exact absurd ‹_› (hne '\x7b' _ rfl)
  · rw [hspan]
    rfl

theorem value?_quoteChars (s : String) (fuel : Nat) :
    value? (fuel + 1) (Json.quoteChars s ++ tail) =
      some (.string (Quoted.encode s.toList), tail) := by
  rw [Json.quoteChars, List.cons_append, List.cons_append, List.append_assoc, List.singleton_append,
    value?, skipBlanks_cons rfl]
  simp [Quoted.span?_encode]

end

/-! ## Values -/

/-- The text of a value begins with a character that tells what it is. -/
theorem exists_head_of_compactChars {j : Json} (h : j.Prints) :
    ∃ c cs, j.compactChars = c :: cs ∧ isBlank c = false ∧ c ≠ ']' := by
  have hnumber : ∀ {cs}, spanNumber? cs = some (cs, []) →
      ∃ c ds, cs = c :: ds ∧ isBlank c = false ∧ c ≠ ']' := by
    intro cs hcs
    obtain ⟨c, ds, rfl, hc⟩ := exists_head_of_spanNumber? hcs
    exact ⟨c, ds, rfl, isBlank_of_isDigit hc, ne_of_isDigit hc rfl⟩
  cases j with
  | null => exact ⟨_, _, rfl, rfl, by decide⟩
  | bool b => cases b <;> exact ⟨_, _, rfl, rfl, by decide⟩
  | int i => exact hnumber (spanNumber?_chars i)
  | float x => exact hnumber (Binary64.Survives.reads h).1
  | str s => exact ⟨_, _, rfl, rfl, by decide⟩
  | arr items => exact ⟨_, _, rfl, rfl, by decide⟩
  | obj fields => exact ⟨_, _, rfl, rfl, by decide⟩

/-! ## Arrays and objects -/

section

variable {fuel : Nat} {cs ds tail : List Char}

theorem value?_bracket {items : List Document} (hblank : skipBlanks cs = cs)
    (hne : cs.head? ≠ some ']') (h : items? fuel cs = some (items, tail)) :
    value? (fuel + 1) ('[' :: cs) = some (.array items, tail) := by
  rw [value?, skipBlanks_cons rfl]
  simp only [hblank]
  split
  · exact absurd rfl hne
  · rw [h]
    rfl

theorem value?_brace {fields : List (List Char × Document)}
    (h : fields? fuel ('"' :: cs) = some (fields, tail)) :
    value? (fuel + 1) ('\x7b' :: '"' :: cs) = some (.object fields, tail) := by
  simp [value?, skipBlanks, isBlank, h]

theorem items?_last {item : Document} (h : value? fuel cs = some (item, ']' :: tail)) :
    items? (fuel + 1) cs = some ([item], tail) := by
  simp [items?, skipBlanks, isBlank, h]

theorem items?_comma {item : Document} {items : List Document}
    (h : value? fuel cs = some (item, ',' :: ds)) (hrest : items? fuel ds = some (items, tail)) :
    items? (fuel + 1) cs = some (item :: items, tail) := by
  simp [items?, skipBlanks, isBlank, h, hrest]

theorem fields?_last {key : String} {value : Document}
    (h : value? fuel cs = some (value, '\x7d' :: tail)) :
    fields? (fuel + 1) (Json.quoteChars key ++ ':' :: cs) =
      some ([(Quoted.encode key.toList, value)], tail) := by
  simp [fields?, Json.quoteChars, Quoted.span?_encode, skipBlanks, isBlank, h]

theorem fields?_comma {key : String} {value : Document} {fields : List (List Char × Document)}
    (h : value? fuel cs = some (value, ',' :: ds))
    (hrest : fields? fuel ds = some (fields, tail)) :
    fields? (fuel + 1) (Json.quoteChars key ++ ':' :: cs) =
      some ((Quoted.encode key.toList, value) :: fields, tail) := by
  simp [fields?, Json.quoteChars, Quoted.span?_encode, skipBlanks, isBlank, h, hrest]

end

/-- The items of an array begin neither with a blank nor with the bracket that closes it. -/
theorem head_compactItems {item : Json} (h : item.Prints) (items : List Json) (tail : List Char) :
    skipBlanks (Json.compactItems (item :: items) ++ tail) =
        Json.compactItems (item :: items) ++ tail ∧
      (Json.compactItems (item :: items) ++ tail).head? ≠ some ']' := by
  obtain ⟨c, cs, hcs, hblank, hne⟩ := exists_head_of_compactChars h
  obtain ⟨ds, hds⟩ : ∃ ds, Json.compactItems (item :: items) ++ tail = c :: ds := by
    cases items with
    | nil => exact ⟨_, by rw [Json.compactItems, hcs, List.cons_append]⟩
    | cons => exact ⟨_, by rw [Json.compactItems, hcs, List.append_assoc, List.cons_append]; simp⟩
  rw [hds]
  exact ⟨skipBlanks_cons hblank, fun heq => hne (Option.some.inj heq)⟩

theorem exists_compactFields (field : String × Json) (fields : List (String × Json)) :
    ∃ cs, Json.compactFields (field :: fields) = '"' :: cs := by
  cases fields <;> exact ⟨_, rfl⟩

-- By induction on the value, not on the fuel: the fuel exceeds the length of the text, and every step
-- down leaves at least one character behind.
mutual

/-- **A written value is found in front of what does not go on with a number.** -/
theorem value?_compactChars : ∀ {j : Json}, j.Prints → ∀ {fuel : Nat} {tail : List Char},
    j.compactChars.length < fuel → Ends tail →
      value? fuel (j.compactChars ++ tail) = some (j.document, tail)
  | j, h, 0, _, hfuel, _ => absurd hfuel (Nat.not_lt_zero _)
  | .null, _, _ + 1, _, _, _ => rfl
  | .bool true, _, _ + 1, _, _, _ => rfl
  | .bool false, _, _ + 1, _, _, _ => rfl
  | .int i, _, fuel + 1, _, _, htail => value?_number (spanNumber?_chars i) htail fuel
  | .float _, h, fuel + 1, _, _, htail => value?_number (Binary64.Survives.reads h).1 htail fuel
  | .str s, _, fuel + 1, _, _, _ => value?_quoteChars s fuel
  | .arr [], _, _ + 1, _, _, _ => rfl
  | .arr (item :: items), h, fuel + 1, tail, hfuel, _ => by
    have hchars : (Json.arr (item :: items)).compactChars ++ tail =
        '[' :: (Json.compactItems (item :: items) ++ ']' :: tail) := by
      simp [Json.compactChars]
    have hlength : (Json.compactItems (item :: items)).length + 1 < fuel := by
      simpa [Json.compactChars] using hfuel
    obtain ⟨hblank, hne⟩ := head_compactItems h.1 items (']' :: tail)
    rw [hchars]
    exact value?_bracket hblank hne (items?_compactItems (List.cons_ne_nil _ _) h hlength)
  | .obj [], _, _ + 1, _, _, _ => rfl
  | .obj (field :: fields), h, fuel + 1, tail, hfuel, _ => by
    have hchars : (Json.obj (field :: fields)).compactChars ++ tail =
        '\x7b' :: (Json.compactFields (field :: fields) ++ '\x7d' :: tail) := by
      simp [Json.compactChars]
    have hlength : (Json.compactFields (field :: fields)).length + 1 < fuel := by
      simpa [Json.compactChars] using hfuel
    have hread :=
      @fields?_compactFields (field :: fields) (List.cons_ne_nil _ _) h fuel tail hlength
    obtain ⟨cs, hcs⟩ := exists_compactFields field fields
    rw [hcs] at hread
    rw [hchars, hcs]
    exact value?_brace hread

theorem items?_compactItems : ∀ {items : List Json}, items ≠ [] → Json.AllPrint items →
    ∀ {fuel : Nat} {tail : List Char}, (Json.compactItems items).length + 1 < fuel →
      items? fuel (Json.compactItems items ++ ']' :: tail) = some (Json.documents items, tail)
  | [], hne, _, _, _, _ => absurd rfl hne
  | items, _, _, 0, _, hfuel => absurd hfuel (Nat.not_lt_zero _)
  | [item], _, h, fuel + 1, tail, hfuel => by
    rw [Json.compactItems] at hfuel ⊢
    exact items?_last (value?_compactChars h.1 (by omega) (ends_cons rfl))
  | item :: next :: items, _, h, fuel + 1, tail, hfuel => by
    rw [Json.compactItems_cons, List.length_append, List.length_cons] at hfuel
    rw [Json.compactItems_cons, List.append_assoc, List.cons_append]
    exact items?_comma (value?_compactChars h.1 (by omega) (ends_cons rfl))
      (items?_compactItems (List.cons_ne_nil _ _) h.2 (by omega))

theorem fields?_compactFields : ∀ {fields : List (String × Json)}, fields ≠ [] →
    Json.FieldsPrint fields → ∀ {fuel : Nat} {tail : List Char},
      (Json.compactFields fields).length + 1 < fuel →
        fields? fuel (Json.compactFields fields ++ '\x7d' :: tail) =
          some (Json.fieldDocuments fields, tail)
  | [], hne, _, _, _, _ => absurd rfl hne
  | fields, _, _, 0, _, hfuel => absurd hfuel (Nat.not_lt_zero _)
  | [(key, value)], _, h, fuel + 1, tail, hfuel => by
    rw [Json.compactFields, List.length_append, List.length_cons] at hfuel
    rw [Json.compactFields, List.append_assoc, List.cons_append]
    exact fields?_last (value?_compactChars h.1 (by omega) (ends_cons rfl))
  | (key, value) :: next :: fields, _, h, fuel + 1, tail, hfuel => by
    rw [Json.compactFields_cons, List.length_append, List.length_cons, List.length_append,
      List.length_cons] at hfuel
    rw [Json.compactFields_cons, List.append_assoc, List.cons_append, List.append_assoc,
      List.cons_append]
    exact fields?_comma (value?_compactChars h.1 (by omega) (ends_cons rfl))
      (fields?_compactFields (List.cons_ne_nil _ _) h.2 (by omega))

end

/-- **The text of a value is read as the document that spells it.** -/
theorem parse_compact {j : Json} (h : j.Prints) : parse j.compact = some j.document := by
  have hvalue := value?_compactChars h (Nat.lt_succ_self _) ends_nil
  rw [List.append_nil] at hvalue
  rw [parse, Json.compact, String.toList_ofList, parseChars, hvalue]
  rfl

end Document
end TraversalPlan

import TraversalPlan.Json.Quoted

/-!
# Strings between quotes

What is written between quotes ends at the closing quote and nowhere before, and denotes the characters
it was made of.

* `Quoted.Spelling`: the three ways in which a character is written.
* `Quoted.span?_encode`: the end of a written string is found.
* **`Quoted.decode_encode`**: a written string is read back.
-/

namespace TraversalPlan.Quoted

/-! ## Single characters -/

/-- A control character that has no short escape is written with its two lowest hexadecimal
digits. -/
theorem hex4?_of_lt {n : Nat} (h : n < 32) :
    hex4? '0' '0' (hexDigit (n / 16)) (hexDigit n) = some n := by
  have hall : ∀ n < 32, hex4? '0' '0' (hexDigit (n / 16)) (hexDigit n) = some n := by decide
  exact hall n h

theorem ofNat_of_toNat {c : Char} {n : Nat} (h : c.toNat = n) : Char.ofNat n = c := by
  rw [← h, Char.ofNat_toNat]

/-- How a character is written: as it is, after a backslash, or by its number. -/
inductive Spelling : Char → List Char → Prop
  | plain {c : Char} (quote : c ≠ '"') (slash : c ≠ '\\') (printing : 32 ≤ c.toNat) : Spelling c [c]
  | short {c escape : Char} (unicode : escape ≠ 'u') (simple : simpleEscape? escape = some c) :
    Spelling c ['\\', escape]
  | number {c : Char} (control : c.toNat < 32) :
    Spelling c ['\\', 'u', '0', '0', hexDigit (c.toNat / 16), hexDigit c.toNat]

theorem spelling_encodeChar (c : Char) : Spelling c (encodeChar c) := by
  unfold encodeChar
  by_cases hquote : c = '"'
  · subst hquote
    exact .short (by decide) rfl
  rw [if_neg hquote]
  by_cases hslash : c = '\\'
  · subst hslash
    exact .short (by decide) rfl
  rw [if_neg hslash]
  by_cases hcontrol : c.toNat < 32
  · split
    · exact .short (by decide) (‹c = '\n'› ▸ rfl)
    split
    · exact .short (by decide) (‹c = '\r'› ▸ rfl)
    split
    · exact .short (by decide) (‹c = '\t'› ▸ rfl)
    split
    · exact .short (by decide) (congrArg some (ofNat_of_toNat ‹c.toNat = 8›))
    split
    · exact .short (by decide) (congrArg some (ofNat_of_toNat ‹c.toNat = 12›))
    exact .number hcontrol
  · have hne : ∀ d : Char, d.toNat < 32 → c ≠ d := by
      rintro d hd rfl
      exact hcontrol hd
    rw [if_neg (hne _ (by decide)), if_neg (hne _ (by decide)), if_neg (hne _ (by decide)),
      if_neg (by omega), if_neg (by omega), if_neg hcontrol]
    exact .plain hquote hslash (Nat.le_of_not_lt hcontrol)

theorem Spelling.span?_append {c : Char} {cs : List Char} (h : Spelling c cs) (rest : List Char) :
    span? (cs ++ rest) = (span? rest).map fun r => (cs ++ r.1, r.2) := by
  cases h with
  | plain quote slash printing =>
    rw [List.singleton_append, span?, if_neg]
    · cases span? rest <;> rfl
    · exact not_or.2 ⟨Nat.not_lt.2 printing, slash⟩
    · exact quote
    · exact fun _ _ _ _ _ hc => absurd hc slash
    · exact fun _ _ hc => absurd hc slash
  | short unicode simple =>
    rw [List.cons_append, List.singleton_append, span?, simple]
    · cases span? rest <;> rfl
    · exact fun _ _ _ _ _ hc => absurd hc unicode
  | number control =>
    simp only [List.cons_append, List.nil_append]
    rw [span?, hex4?_of_lt control]
    cases span? rest <;> rfl

theorem Spelling.decode_append {c : Char} {cs : List Char} (h : Spelling c cs) (rest : List Char) :
    decode (cs ++ rest) = (decode rest).map (c :: ·) := by
  cases h with
  | plain quote slash printing =>
    rw [List.singleton_append, decode, if_neg slash]
    · exact fun _ _ _ _ _ hc => absurd hc slash
    · exact fun _ _ hc => absurd hc slash
  | short unicode simple =>
    rw [List.cons_append, List.singleton_append, decode, simple]
    · cases decode rest <;> rfl
    · exact fun _ _ _ _ _ hc => absurd hc unicode
  | number control =>
    simp only [List.cons_append, List.nil_append]
    rw [decode, hex4?_of_lt control, Option.bind_eq_bind, Option.bind_some,
      if_neg (by omega), if_neg (by omega), Char.ofNat_toNat]
    cases decode rest <;> rfl

/-! ## Whole strings -/

theorem span?_encode (cs rest : List Char) :
    span? (encode cs ++ '"' :: rest) = some (encode cs, rest) := by
  induction cs with
  | nil => rfl
  | cons c cs ih =>
    rw [encode, List.flatMap_cons, List.append_assoc, (spelling_encodeChar c).span?_append]
    rw [encode] at ih
    rw [ih]
    rfl

/-- **A written string is read back.** -/
theorem decode_encode (cs : List Char) : decode (encode cs) = some cs := by
  induction cs with
  | nil => rfl
  | cons c cs ih =>
    rw [encode, List.flatMap_cons, (spelling_encodeChar c).decode_append]
    rw [encode] at ih
    rw [ih]
    rfl

theorem encode_of_isDigit {cs : List Char} (h : ∀ c ∈ cs, c.isDigit = true) : encode cs = cs := by
  induction cs with
  | nil => rfl
  | cons c cs ih =>
    obtain ⟨hc, hcs⟩ := List.forall_mem_cons.1 h
    have hne : ∀ d, d.isDigit = false → c ≠ d := by
      rintro d hd rfl
      rw [hc] at hd
      exact Bool.noConfusion hd
    have hrange : 48 ≤ c.toNat := by
      simp only [Char.isDigit, Bool.and_eq_true, decide_eq_true_eq] at hc
      exact hc.1
    have hchar : encodeChar c = [c] := by
      simp [encodeChar, hne, show c.toNat ≠ 8 by omega, show c.toNat ≠ 12 by omega,
        show ¬ c.toNat < 32 by omega]
    rw [encode] at ih
    rw [encode, List.flatMap_cons, hchar, ih hcs, List.singleton_append]

end TraversalPlan.Quoted

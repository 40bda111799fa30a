/-!
# Decimal numerals

* `Numeral.chars`, `Numeral.text`: an integer in decimal, with a minus sign only if it is negative.
* `Numeral.natOf?`, `Numeral.intOf?`: reading one, with an optional sign.
* `digitsOf?_toDigits`, `intOf?_text`: what is written reads back.
-/

namespace TraversalPlan.Numeral

/-- The characters of an integer. -/
def chars (i : Int) : List Char :=
  if i < 0 then '-' :: Nat.toDigits 10 i.natAbs else Nat.toDigits 10 i.natAbs

def text (i : Int) : String := String.ofList (chars i)

/-- The value of digits alone. -/
def digitsOf? (cs : List Char) : Option Nat :=
  if cs.isEmpty || !cs.all Char.isDigit then none else some (Nat.ofDigitChars 10 cs 0)

/-- Reads a natural number with an optional plus sign. -/
def natOf? (s : String) : Option Nat :=
  match s.toList with
  | '+' :: cs => digitsOf? cs
  | cs => digitsOf? cs

/-- Reads an integer with an optional sign. -/
def intOf? (s : String) : Option Int :=
  match s.toList with
  | '-' :: cs => (digitsOf? cs).map fun (n : Nat) => -(n : Int)
  | '+' :: cs => (digitsOf? cs).map Int.ofNat
  | cs => (digitsOf? cs).map Int.ofNat

/-! ## Reading back -/

@[simp]
theorem digitsOf?_toDigits (n : Nat) : digitsOf? (Nat.toDigits 10 n) = some n := by
  have h : (Nat.toDigits 10 n).all Char.isDigit = true :=
    List.all_eq_true.2 fun _ hc => Nat.isDigit_of_mem_toDigits (by decide) (by decide) hc
  simp [digitsOf?, h]

/-- The digits of a number do not begin with a sign. -/
theorem isDigit_head_toDigits {n : Nat} {c : Char} {cs : List Char}
    (h : Nat.toDigits 10 n = c :: cs) : c.isDigit :=
  Nat.isDigit_of_mem_toDigits (b := 10) (n := n) (by decide) (by decide) (by simp [h])

/-- **An integer is read back from its text.** -/
theorem intOf?_text (i : Int) : intOf? (text i) = some i := by
  unfold intOf? text chars
  rw [String.toList_ofList]
  by_cases hi : i < 0
  · rw [if_pos hi]
    simp only [digitsOf?_toDigits, Option.map_some, Option.some.injEq]
    omega
  · rw [if_neg hi]
    have hvalue : (i.natAbs : Int) = i := by omega
    split
    · rename_i h
      exact absurd (isDigit_head_toDigits h) (by decide)
    · rename_i h
      exact absurd (isDigit_head_toDigits h) (by decide)
    · rw [digitsOf?_toDigits]
      exact congrArg some hvalue

end TraversalPlan.Numeral

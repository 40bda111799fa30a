import TraversalPlan.Numeral

/-!
# Numbers with points between them

A path of indexes is written with points between the numbers, in listings as in messages. The digits
of a number have no point in them, so the text can be split at the points again, and no two paths are
written alike (**`dotted_inj`**).

* `dotted`, `undotted?`: writing a path, and reading the numbers between the points.
* `dotted_concat`: a path is written by adding to what has been written for the indexes before.
-/

namespace TraversalPlan

/-- A path with points between its numbers. -/
def dotted (path : List Nat) : String := ".".intercalate (path.map Nat.repr)

/-- The numbers between the points of a text. -/
def undotted? (s : String) : Option (List Nat) := (s.toList.splitOn '.').mapM Numeral.digitsOf?

/-- What stands before an index when the indexes of a path have been written, each with a point. -/
def dottedFront (path : List Nat) : String := String.join (path.map fun n => n.repr ++ ".")

theorem dottedFront_concat (path : List Nat) (n : Nat) :
    dottedFront (path ++ [n]) = dottedFront path ++ n.repr ++ "." := by
  simp [dottedFront, String.join_append, String.append_assoc]

theorem dotted_concat (path : List Nat) (n : Nat) :
    dotted (path ++ [n]) = dottedFront path ++ n.repr := by
  induction path with
  | nil => simp [dotted, dottedFront]
  | cons m path ih =>
    have hne : (path ++ [n]).map Nat.repr ≠ [] := by simp
    have hrest : ".".intercalate ((path ++ [n]).map Nat.repr) = dottedFront path ++ n.repr := ih
    rw [dotted, List.cons_append, List.map_cons, String.intercalate_cons_of_ne_nil hne, hrest]
    simp [dottedFront, String.append_assoc]

theorem toList_dotted (path : List Nat) :
    (dotted path).toList = ['.'].intercalate (path.map (Nat.toDigits 10)) := by
  have hnumbers : (path.map Nat.repr).map String.toList = path.map (Nat.toDigits 10) := by simp
  rw [dotted, String.toList_intercalate, hnumbers]
  rfl

/-- A path is written with digits and points. -/
theorem isDigit_or_eq_of_mem_dotted (path : List Nat) :
    ∀ c ∈ (dotted path).toList, c.isDigit ∨ c = '.' := by
  have hdigits : ∀ n, ∀ c ∈ Nat.toDigits 10 n, c.isDigit ∨ c = '.' :=
    fun n c hc => .inl (Nat.isDigit_of_mem_toDigits (by decide) (by decide) hc)
  rw [toList_dotted]
  induction path with
  | nil => simp
  | cons n path ih =>
    cases path with
    | nil => simpa using hdigits n
    | cons m path =>
      rw [List.map_cons, List.map_cons, List.intercalate_cons_cons]
      simp only [List.forall_mem_append, List.forall_mem_singleton]
      exact ⟨⟨hdigits n, .inr trivial⟩, ih⟩

theorem mapM_digitsOf?_toDigits (path : List Nat) :
    (path.map (Nat.toDigits 10)).mapM Numeral.digitsOf? = some path := by
  induction path with
  | nil => rfl
  | cons n path ih => simp [ih]

/-- **A text is split into the numbers it is written with.** The empty path has no numbers to find. -/
theorem undotted?_dotted {path : List Nat} (h : path ≠ []) : undotted? (dotted path) = some path := by
  have hpoint : ∀ ds ∈ path.map (Nat.toDigits 10), '.' ∉ ds := by
    simp only [List.forall_mem_map]
    intro n _ hmem
    have hdigit : '.'.isDigit := Nat.isDigit_of_mem_toDigits (by decide) (by decide) hmem
    exact absurd hdigit (by decide)
  have hsplit : (dotted path).toList.splitOn '.' = path.map (Nat.toDigits 10) := by
    rw [toList_dotted, List.splitOn_intercalate '.' hpoint (by simpa using h)]
  rw [undotted?, hsplit, mapM_digitsOf?_toDigits]

theorem undotted?_empty : undotted? (dotted []) = none := by decide

/-- **No two paths are written alike.** -/
theorem dotted_inj {p q : List Nat} (h : dotted p = dotted q) : p = q := by
  have hread : undotted? (dotted p) = undotted? (dotted q) := by rw [h]
  by_cases hp : p = [] <;> by_cases hq : q = []
  · rw [hp, hq]
  · rw [hp, undotted?_empty, undotted?_dotted hq] at hread
    cases hread
  · rw [hq, undotted?_empty, undotted?_dotted hp] at hread
    cases hread
  · rw [undotted?_dotted hp, undotted?_dotted hq] at hread
    exact Option.some.inj hread

end TraversalPlan

import TraversalPlan.Plan.Alias
import TraversalPlan.Proofs.Text.Ends

/-!
# Generated names

A generated name is its category, its tag between brackets and a path of numbers. Each of the three
parts can be told where it ends, so a name is given to one column only (**`allocateChars_inj`**).

* `digits_append_inj`: a number ends where the digits do.
* `tag_append_inj`: a tag ends at the first bracket without a backslash.
* `name_allocate_eq_iff`: the name fixes everything a column is allocated with.
* `Alias.PlacedAt`: a column was allocated under a category and a path. The name fixes both
  (`PlacedAt.eq_of_name`).
-/

namespace TraversalPlan.Alias

/-! ## Paths -/

/-- The text does not go on with a digit. -/
def EndsNumber (r : List Char) : Prop := ∀ c ∈ r.head?, c.isDigit = false

/-- A number is read off the digits it begins with. -/
theorem digits_append_inj {m n : Nat} {r s : List Char} (hr : EndsNumber r) (hs : EndsNumber s)
    (h : Nat.toDigits 10 m ++ r = Nat.toDigits 10 n ++ s) : m = n ∧ r = s := by
  have hdigits : ∀ n, ∀ c ∈ Nat.toDigits 10 n, c.isDigit :=
    fun n c hc => Nat.isDigit_of_mem_toDigits (by decide) (by decide) hc
  obtain ⟨hd, hrs⟩ := run_append_inj (hdigits m) (hdigits n) hr hs h
  have hv := congrArg (fun ds => Nat.ofDigitChars 10 ds 0) hd
  exact ⟨by simpa using hv, hrs⟩

theorem endsNumber_path (p : List UInt32) : EndsNumber (p.flatMap componentChars) := by
  cases p with
  | nil => simp [EndsNumber]
  | cons i p => simp [EndsNumber, componentChars]

theorem path_inj : ∀ {p q : List UInt32},
    p.flatMap componentChars = q.flatMap componentChars → p = q
  | [], [], _ => rfl
  | [], j :: q, h => by simp [componentChars] at h
  | i :: p, [], h => by simp [componentChars] at h
  | i :: p, j :: q, h => by
    rw [List.flatMap_cons, List.flatMap_cons, componentChars, componentChars, List.cons_append,
      List.cons_append, List.cons.injEq] at h
    obtain ⟨hij, hpq⟩ := digits_append_inj (endsNumber_path p) (endsNumber_path q) h.2
    rw [UInt32.toNat_inj.1 hij, path_inj hpq]

/-! ## Tags -/

theorem tag_append_inj {t u r s : List Char}
    (h : t.flatMap tagChar ++ ']' :: r = u.flatMap tagChar ++ ']' :: s) : t = u ∧ r = s :=
  escape_append_inj (by decide) h

theorem tagChars_append_inj {t u r s : List Char}
    (h : tagChars t ++ '_' :: r = tagChars u ++ '_' :: s) : t = u ∧ r = s := by
  cases t with
  | nil =>
    cases u with
    | nil => simpa [tagChars] using h
    | cons d u => simp [tagChars] at h
  | cons c t =>
    cases u with
    | nil => simp [tagChars] at h
    | cons d u =>
      simp only [tagChars, List.isEmpty_cons, Bool.false_eq_true, if_false, List.cons_append,
        List.append_assoc, List.nil_append, List.cons.injEq, true_and] at h
      obtain ⟨ht, hr⟩ := tag_append_inj h
      exact ⟨ht, (List.cons.inj hr).2⟩

/-! ## Names -/

theorem stem_append_inj {k l : Category} {r s : List Char}
    (h : k.stem ++ r = l.stem ++ s) : k = l ∧ r = s := by
  cases k <;> cases l <;> simp_all [Category.stem]

/-- **A generated name is given once**: it fixes the category, the tag and the path. -/
theorem allocateChars_inj {k l : Category} {t u : String} {p q : Position} {i j : UInt32}
    (h : allocateChars k t p i = allocateChars l u q j) :
    k = l ∧ t = u ∧ p.path ++ [i] = q.path ++ [j] := by
  have hpath : ∀ (p : Position) (i : UInt32), ∃ r,
      (p.path ++ [i]).flatMap componentChars = '_' :: r := by
    rintro ⟨_ | ⟨a, p⟩⟩ i <;> simp [componentChars]
  obtain ⟨r, hr⟩ := hpath p i
  obtain ⟨s, hs⟩ := hpath q j
  rw [allocateChars, allocateChars, List.cons_append, List.cons_append, List.cons_append,
    List.cons_append, List.append_assoc, List.append_assoc, List.cons.injEq] at h
  obtain ⟨hk, h⟩ := stem_append_inj h.2
  rw [hr, hs] at h
  obtain ⟨ht, hrs⟩ := tagChars_append_inj h
  refine ⟨hk, String.toList_inj.1 ht, path_inj ?_⟩
  rw [hr, hs, hrs]

/-- **Two allocations give one name only when they are the same**: with the same category, tag, position
and number. -/
theorem name_allocate_eq_iff (k l : Category) (t u : String) (p q : Position) (i j : UInt32) :
    (allocate k t p i).name = (allocate l u q j).name ↔ k = l ∧ t = u ∧ p = q ∧ i = j := by
  constructor
  · intro h
    obtain ⟨hcategory, htag, hpath⟩ := allocateChars_inj (String.ofList_inj.1 h)
    -- the number stands last, so it is told from the position before it
    obtain ⟨hposition, hnumber⟩ := List.append_inj' hpath rfl
    refine ⟨hcategory, htag, ?_, List.singleton_inj.1 hnumber⟩
    cases p
    cases q
    exact congrArg Position.mk hposition
  · rintro ⟨rfl, rfl, rfl, rfl⟩
    rfl

/-- The column was allocated under the category, with the path of its step and its number. -/
def PlacedAt (a : Alias) (k : Category) (path : List UInt32) : Prop :=
  ∃ tag position sub, a = allocate k tag position sub ∧ path = position.path ++ [sub]

theorem placedAt_allocate (k : Category) (tag : String) (p : Position) (i : UInt32) :
    (allocate k tag p i).PlacedAt k (p.path ++ [i]) := ⟨tag, p, i, rfl, rfl⟩

/-- **The name of a generated column says where it belongs.** -/
theorem PlacedAt.eq_of_name {a b : Alias} {k l : Category} {p q : List UInt32}
    (ha : a.PlacedAt k p) (hb : b.PlacedAt l q) (h : a.name = b.name) : k = l ∧ p = q := by
  obtain ⟨t, P, i, rfl, rfl⟩ := ha
  obtain ⟨u, Q, j, rfl, rfl⟩ := hb
  obtain ⟨hk, -, hp⟩ := allocateChars_inj (String.ofList_inj.1 h)
  exact ⟨hk, hp⟩

end TraversalPlan.Alias

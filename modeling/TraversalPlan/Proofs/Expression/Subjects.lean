import Mathlib.Data.List.Permutation
import TraversalPlan.Proofs.Expression.Rewriting

/-!
# Telling values apart by their expressions

The expression of a value is its tag and, after a point, its property. Neither part is marked off
against points of its own, so a tag with a point reads like a property of a shorter tag. Values whose
tags have equally many points are told apart, others are not if they are written alike
(**`Traversal.value_eq_iff_of_single?`**).

* `Expr.propertyChars`, `Expr.toList_subject`: what follows the tag in an expression.
* `Expr.subject_inj_iff`: expressions written alike are of one value just if the tags have equally
  many points.
* `Traversal.isFollowed_of_through?`: the expression of a traversal that is pure.
-/

namespace TraversalPlan

/-! ## Subjects -/

namespace Expr

/-- What follows the tag in an expression. -/
def propertyChars : Option String → List Char
  | none => []
  | some property => '.' :: property.toList

theorem propertyChars_inj {p q : Option String} (h : propertyChars p = propertyChars q) : p = q := by
  cases p with
  | none =>
    cases q with
    | none => rfl
    | some q => cases h
  | some p =>
    cases q with
    | none => cases h
    | some q => rw [String.toList_inj.1 (List.cons.inj h).2]

theorem toList_subject (tag : String) (property : Option String) :
    (subject tag property).toList = '@' :: (tag.toList ++ propertyChars property) := by
  cases property <;> simp [subject, propertyChars]

/-- The number of points in a tag. -/
def points (tag : String) : Nat := tag.toList.count '.'

variable {a b : String} {p q : Option String}

/-- A tag that goes on where another one ends has a point there. -/
theorem points_lt_of_append {m : List Char} (hm : m ≠ []) (hb : b.toList = a.toList ++ m)
    (hp : propertyChars p = m ++ propertyChars q) : points a < points b := by
  obtain ⟨c, m, rfl⟩ := List.exists_cons_of_ne_nil hm
  cases p with
  | none => cases hp
  | some p =>
    obtain rfl : '.' = c := (List.cons.inj hp).1
    rw [points, points, hb, List.count_append, List.count_cons_self]
    omega

/-- **Expressions written alike** are of one value just if the tags have equally many points. -/
theorem subject_inj_iff (h : subject a p = subject b q) :
    a = b ∧ p = q ↔ points a = points b := by
  constructor
  · rintro ⟨rfl, -⟩
    rfl
  · intro hpoints
    have hchars : a.toList ++ propertyChars p = b.toList ++ propertyChars q := by
      have htext := congrArg String.toList h
      rw [toList_subject, toList_subject] at htext
      exact (List.cons.inj htext).2
    -- the shorter tag ends where the longer one goes on
    rcases List.append_eq_append_iff.1 hchars with ⟨m, hb, hp⟩ | ⟨m, ha, hq⟩
    · by_cases hm : m = []
      · subst hm
        rw [List.append_nil] at hb
        exact ⟨(String.toList_inj.1 hb).symm, propertyChars_inj hp⟩
      · exact absurd hpoints (points_lt_of_append hm hb hp).ne
    · by_cases hm : m = []
      · subst hm
        rw [List.append_nil] at ha
        exact ⟨String.toList_inj.1 ha, (propertyChars_inj hq).symm⟩
      · exact absurd hpoints (points_lt_of_append hm ha hq).ne'

end Expr

/-! ## Chains -/

namespace Traversal

/-- What the steps of a traversal lead to is its expression. -/
theorem isFollowed_of_through? {t : Traversal} {c : Cursor}
    (h : Cursor.current.through? t.steps = some c) : t.IsFollowed := by
  by_cases hchain : t.IsChain
  · exact isFollowed_of_isChain hchain
  obtain ⟨l, hl⟩ := not_forall.1 hchain
  by_cases hselect : ∃ s, t.steps = [⟨.modulated (.select s), l⟩]
  · obtain ⟨⟨keys, bys⟩, hsteps⟩ := hselect
    rw [hsteps] at h
    -- only a `select` of one key leads anywhere
    match keys with
    | [key] => exact isFollowed_of_select key bys l (by rw [hsteps]; exact List.mem_cons_self)
    | [] => simp [Cursor.through?] at h
    | _ :: _ :: _ => simp [Cursor.through?] at h
  · have hdedup : ∃ s, t.steps = [⟨.modulated (.dedup s), l⟩] := by
      by_contra hdedup
      exact hl ⟨not_exists.1 hselect, not_exists.1 hdedup⟩
    obtain ⟨s, hsteps⟩ := hdedup
    simp [hsteps, Cursor.through?] at h

/-- **Values written alike are the same** just if their tags have equally many points, in particular
if no tag has a point. -/
theorem value_eq_iff_of_single? {s t : Traversal} {a b : String} {p q : Option String}
    (hs : Cursor.current.through? s.steps = some (.value a p))
    (ht : Cursor.current.through? t.steps = some (.value b q))
    (h : s.extract.single? = t.extract.single?) :
    a = b ∧ p = q ↔ Expr.points a = Expr.points b := by
  rw [isFollowed_of_through? hs, isFollowed_of_through? ht, hs, ht] at h
  exact Expr.subject_inj_iff (Option.some.inj h)

/-- A property of a tag. -/
def pointedKey : Traversal := (identity.select "a").values "b.c"

/-- The same property, by the modulator of the tag. -/
def pointedKeyBy : Traversal := identity.selectBy ["a"] [identity.values "b.c"]

theorem value_eq_iff_of_single?_pointedKey :
    (Cursor.current.through? pointedKey.steps = some (.value "a" (some "b.c")) ∧
      Cursor.current.through? pointedKeyBy.steps = some (.value "a" (some "b.c")) ∧
      pointedKey.extract.single? = pointedKeyBy.extract.single?) ∧
    ("a" = "a" ∧ some "b.c" = some "b.c" ↔ Expr.points "a" = Expr.points "a") := by
  have hs : Cursor.current.through? pointedKey.steps = some (.value "a" (some "b.c")) := by cbv
  have ht : Cursor.current.through? pointedKeyBy.steps = some (.value "a" (some "b.c")) := by cbv
  have h : pointedKey.extract.single? = pointedKeyBy.extract.single? := by cbv
  exact ⟨⟨hs, ht, h⟩, value_eq_iff_of_single? hs ht h⟩

/-- A tag with a point in it. -/
def pointedTag : Traversal := identity.select "a.b"

/-- A property of another tag. -/
def propertyOfTag : Traversal := (identity.select "a").values "b"

theorem pointedTag_like_property :
    Cursor.current.through? pointedTag.steps = some (.value "a.b" none) ∧
      Cursor.current.through? propertyOfTag.steps = some (.value "a" (some "b")) ∧
      pointedTag.extract.single? = some "@a.b" ∧ propertyOfTag.extract.single? = some "@a.b" := by
  refine ⟨?_, ?_, ?_, ?_⟩ <;> cbv

end Traversal
end TraversalPlan

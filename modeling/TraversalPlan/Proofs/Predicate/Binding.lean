import TraversalPlan.Predicate.Basic

/-!
# Binding operands

Binding gives the comparisons of a predicate their operands from left to right. It keeps the shape of
the predicate, whatever the operands are.

* `Predicate.bind_left`: what is left of the operands.
* `Predicate.isCompound_bind`: a predicate is as compound as before.
-/

namespace TraversalPlan.Predicate

mutual

/-- Replaces the operands of the comparisons from left to right by expressions, and returns the
expressions left over. Comparisons beyond the expressions keep their operand. -/
def bind : Predicate → List String → Predicate × List String
  | compare op _, e :: es => (compare op (.expr e), es)
  | compare op operand, [] => (compare op operand, [])
  | all ps, es =>
    let (ps, es) := bindEach ps es
    (all ps, es)
  | any ps, es =>
    let (ps, es) := bindEach ps es
    (any ps, es)
  | not p, es =>
    let (p, es) := bind p es
    (not p, es)

/-- Replaces the operands of several predicates. -/
def bindEach : List Predicate → List String → List Predicate × List String
  | [], es => ([], es)
  | p :: ps, es =>
    let (p, es) := bind p es
    let (ps, es) := bindEach ps es
    (p :: ps, es)

end

theorem bindEach_cons (p : Predicate) (ps : List Predicate) (es : List String) :
    bindEach (p :: ps) es = ((p.bind es).1 :: (bindEach ps (p.bind es).2).1,
      (bindEach ps (p.bind es).2).2) := rfl

mutual

/-- Each comparison uses up one expression, as long as there are any. -/
theorem bind_left (p : Predicate) (es : List String) : (p.bind es).2 = es.drop p.leafCount := by
  match p, es with
  | compare op operand, [] => rfl
  | compare op operand, e :: es => rfl
  | not p, es => exact bind_left p es
  | all ps, es => exact bindEach_left ps es
  | any ps, es => exact bindEach_left ps es

theorem bindEach_left (ps : List Predicate) (es : List String) :
    (bindEach ps es).2 = es.drop (leafCounts ps) := by
  match ps with
  | [] => rfl
  | p :: ps => rw [bindEach_cons, leafCounts, ← List.drop_drop, ← bind_left p es, bindEach_left ps]

end

theorem isCompound_bind : ∀ (p : Predicate) (es : List String),
    (p.bind es).1.isCompound = p.isCompound
  | compare _ _, [] => rfl
  | compare _ _, _ :: _ => rfl
  | not _, _ => rfl
  | all [], _ => rfl
  | all [p], es => isCompound_bind p es
  | all (_ :: _ :: _), _ => by simp [bind, bindEach_cons, isCompound]
  | any [], _ => rfl
  | any [p], es => isCompound_bind p es
  | any (_ :: _ :: _), _ => by simp [bind, bindEach_cons, isCompound]

end TraversalPlan.Predicate

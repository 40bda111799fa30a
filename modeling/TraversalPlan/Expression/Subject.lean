import TraversalPlan.Traversal.Basic

/-!
# Expressions for a tagged record

* `Expr.subject`: a record, or one of its properties.
* `HasTest.parts`, `Expr.labelTest`: the boolean expressions of filters, each with whether it is
  compound.
-/

namespace TraversalPlan

namespace Expr

/-- The expression of a tagged record or of one of its properties. -/
def subject (tag : String) : Option String → String
  | none => "@" ++ tag
  | some property => "@" ++ tag ++ "." ++ property

/-- The property that holds the id of an element. -/
def idProperty : String := "~id"

/-- The property that holds the label of an element. -/
def labelProperty : String := "~label"

/-- The test that an element has one of some labels. -/
def labelTest (tag : String) (labels : List String) : String × Bool :=
  let p := match labels with
    | [only] => Predicate.eq (.string only)
    | _ => Predicate.within (labels.map .string)
  (p.flatten (subject tag (some labelProperty)), false)

end Expr

/-- The tests of a `has` step on the element of a tag. -/
def HasTest.parts (tag : String) : HasTest → List (String × Bool)
  | key k => [(Expr.subject tag (some k), false)]
  | keyValue k v => [((Predicate.eq v).flatten (Expr.subject tag (some k)), false)]
  | keyPredicate k p => [(p.flatten (Expr.subject tag (some k)), p.isCompound)]
  | labelKeyValue l k v =>
    [Expr.labelTest tag [l], ((Predicate.eq v).flatten (Expr.subject tag (some k)), false)]

end TraversalPlan

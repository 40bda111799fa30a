/-!
# Character properties

A property is a list of ranges of code points, first and last.

* `Property.holds`: whether a code point has a property.
-/

namespace TraversalPlan.Property

/-- Whether a code point lies in one of the ranges. -/
def holds (ranges : List (Nat × Nat)) (c : Nat) : Bool :=
  ranges.any fun r => r.1 ≤ c && c ≤ r.2

end TraversalPlan.Property

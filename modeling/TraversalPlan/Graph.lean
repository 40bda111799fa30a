/-!
# Graph vocabulary

The words that traversals and plans share: elements, directions, endpoints and sort orders.
-/

namespace TraversalPlan

/-- What a graph consists of. -/
inductive ElementKind where
  | vertex
  | edge
deriving DecidableEq, Repr

/-- Which way an edge is followed. -/
inductive Direction where
  | outgoing
  | incoming
  | both
deriving DecidableEq, Repr

/-- Which end of the current edge is taken. -/
inductive Endpoint where
  | source
  | target
  | both
  /-- The end that the edge was not entered from. -/
  | other
deriving DecidableEq, Repr

/-- How records are sorted by a key. -/
inductive SortOrder where
  | ascending
  | descending
  | shuffle
deriving DecidableEq, Repr, Inhabited

end TraversalPlan

import TraversalPlan.OrderedMap
import TraversalPlan.Value.Basic

/-!
# Results of queries

* `QueryResult`: one batch of an engine's answer.
* `TagTable`: the names of the numbered tags in a batch.
-/

namespace TraversalPlan

/-- An element of the graph, by its ids. -/
inductive GraphElement where
  | vertex (id : Int64)
  | edge (source target : Int64)
  /-- The engine sent no content. -/
  | unset
deriving DecidableEq, Repr, Inhabited

/-- What is bound to a tag. -/
inductive TagValue where
  | element (e : GraphElement)
  | value (v : Value)
  | properties (m : OrderedMap String Value)
deriving Inhabited

/-- A numbered tag and what is bound to it. -/
structure TagEntry where
  tag : UInt32
  value : TagValue
deriving Inhabited

/-- Either side of a pair. -/
inductive PairElement where
  | element (e : GraphElement)
  | value (v : Value)
  | elements (es : List GraphElement)
  | values (vs : List Value)
deriving Inhabited

/-- A key and its value, as grouping makes them. -/
structure PairEntry where
  first : PairElement
  second : PairElement
deriving Inhabited

/-- A batch of results. -/
inductive QueryResult where
  | paths (paths : List (List GraphElement))
  | elements (es : List GraphElement)
  | tagEntries (records : List (List TagEntry))
  | pairs (pairs : List PairEntry)
  | value (v : Value)
  | values (vs : List Value)
deriving Inhabited

/-- The names of tags, in the order in which they were registered. -/
abbrev TagTable := OrderedMap UInt32 String

end TraversalPlan

import TraversalPlan.Graph
import TraversalPlan.Plan.Alias
import TraversalPlan.Value.Basic

/-!
# Plans

A plan is a list of operators that an engine runs in order. An operator refers to columns bound
before it by `@` expressions.

* `Operator`, `Plan`: the operators, of which `Operator.apply` holds a plan of its own.
* `Operator.boundAliases`: the columns that an operator binds.
* `Plan.operatorCount`: the number of operators at all depths.
-/

namespace TraversalPlan

/-- How the result of a subquery is merged with the record it was run for. -/
inductive JoinKind where
  /-- The result is attached to the record. -/
  | inner
  /-- The record is kept if there is a result. -/
  | semi
  /-- The record is kept if there is no result. -/
  | anti
deriving DecidableEq, Repr

/-- A projected expression; without an alias it replaces the record. -/
structure ProjectItem where
  expression : String
  column : Option Alias
deriving DecidableEq, Repr

structure SortKey where
  expression : String
  order : SortOrder
deriving DecidableEq, Repr

structure GroupKey where
  expression : String
  column : Alias
deriving DecidableEq, Repr

/-- How the records of a group are reduced. -/
inductive AggregateKind where
  | count
  | countDistinct
  | sum
  | avg
  | min
  | max
  | toList
  | toSet
deriving DecidableEq, Repr

/-- A value computed for a group; without a source it is computed from the records. -/
structure Aggregate where
  kind : AggregateKind
  source : Option String
  column : Alias
deriving DecidableEq, Repr

/-- The size of a sample. -/
inductive SampleAmount where
  | count (n : UInt64)
  | ratio (r : Binary64)
deriving DecidableEq, Repr

inductive Operator where
  /-- All elements of a kind, or those with one of the ids. -/
  | source (element : ElementKind) (ids : List Value)
  | expand (direction : Direction) (element : ElementKind) (labels : List String)
  | endpoint (which : Endpoint)
  /-- The records from `lower` on and before `upper`. -/
  | limit (lower upper : UInt64)
  /-- Names the current record. -/
  | bind (column : Alias)
  /-- Runs operators for each record. -/
  | apply (subplan : List Operator) (join : JoinKind) (column : Option Alias)
  | project (items : List ProjectItem)
  | dedup (keys : List String)
  | order (keys : List SortKey)
  | group (keys : List GroupKey) (values : List Aggregate)
  | select (predicate : String)
  | sample (amount : SampleAmount) (seed : UInt64) (probability : String)
deriving Inhabited

/-- Operators in execution order. -/
structure Plan where
  operators : List Operator
deriving Inhabited

namespace Operator

def name : Operator → String
  | source _ _ => "Source"
  | expand _ _ _ => "Expand"
  | endpoint _ => "GetV"
  | limit _ _ => "Limit"
  | bind _ => "As"
  | apply _ _ _ => "Apply"
  | project _ => "Project"
  | dedup _ => "Dedup"
  | order _ => "Order"
  | group _ _ => "Group"
  | select _ => "Select"
  | sample _ _ _ => "Sample"

/-- The columns that the operator binds, in order. Those inside a subplan are not among them. -/
def boundAliases : Operator → List Alias
  | bind a => [a]
  | apply _ _ a => a.toList
  | project items => items.filterMap ProjectItem.column
  | group keys values => keys.map GroupKey.column ++ values.map Aggregate.column
  | _ => []

/-- The operators that the operator runs for each record. -/
def subplan : Operator → List Operator
  | apply os _ _ => os
  | _ => []

mutual

/-- The number of operators, the operator itself and those of its subplan. -/
def operatorCount : Operator → Nat
  | apply subplan _ _ => 1 + operatorsCount subplan
  | _ => 1

def operatorsCount : List Operator → Nat
  | [] => 0
  | o :: os => operatorCount o + operatorsCount os

end

end Operator

namespace Plan

def size (p : Plan) : Nat := p.operators.length

/-- The number of operators at all depths. -/
def operatorCount (p : Plan) : Nat := Operator.operatorsCount p.operators

end Plan
end TraversalPlan

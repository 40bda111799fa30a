import TraversalPlan.Traced
import TraversalPlan.Expression.Extraction
import TraversalPlan.Lowering.Config
import TraversalPlan.Lowering.Fault

/-!
# Resolving sub-traversals

A rule turns every sub-traversal of a step into an expression. A pure one is its own expression, any
other is lowered as a subquery and referred to by alias.

* `Context`: the step at work, the configuration, and how subqueries are lowered.
* `Context.one`: requires an extraction to have one entry.
* `Context.resolve`: the expression of a sub-traversal, with its subquery if it needs one.
-/

namespace TraversalPlan

/-- A computation of the lowering. -/
abbrev Lowering := Traced LoweringError

/-- How a traversal is lowered whose steps stand under a position. -/
abbrev Builder := Traversal → Position → Lowering Plan

/-- What a rule needs to know while it lowers one step. -/
structure Context where
  build : Builder
  config : Config
  step : StepRef

/-- An expression and the subquery that binds its alias, if it has one. -/
structure Resolved where
  subquery : Option Operator
  expression : String

/-- The operators of a rule: the subqueries in order and then the operator of the step itself. -/
def Resolved.operators (resolved : List Resolved) (terminal : Operator) : List Operator :=
  resolved.filterMap Resolved.subquery ++ [terminal]

namespace Context

def fail {α : Type} (c : Context) (fault : Fault) : Lowering α := .fail ⟨c.step, fault⟩

/-- The generated alias of a category, numbered within the step. -/
def column (c : Context) (category : Alias.Category) (tag : String) (sub : Nat) : Alias :=
  .allocate category tag c.step.position (UInt32.ofNat sub)

/-- Requires an extraction to have one entry, and returns its expression if it has one. -/
def one (c : Context) (r : Extraction) : Lowering (Option String) :=
  if r.size = 1 then pure (Extraction.single? r) else c.fail (.notOneExpression r.size)

/-- Lowers a traversal as the subquery of a number, bound to an alias. -/
def materialize (c : Context) (t : Traversal) (a : Alias) (sub : Nat) : Lowering Resolved := do
  Traced.emit [.subquery c.step a]
  let plan ← c.build t (c.step.position.child sub)
  return ⟨some (.apply plan.operators .inner (some a)), a.expr⟩

/-- The expression that was extracted, or else a subquery bound to an alias. -/
def orSubquery (c : Context) (e : Option String) (t : Traversal) (a : Alias) (sub : Nat) :
    Lowering Resolved :=
  match e with
  | some e => pure ⟨none, e⟩
  | none => c.materialize t a sub

/-- The expression of a traversal, with its subquery under a number if it needs one. -/
def resolve (c : Context) (t : Traversal) (sub : Nat) : Lowering Resolved := do
  let e ← c.one t.extract
  c.orSubquery e t (c.column .subquery "" sub) sub

/-- Lowers a traversal for whether it yields anything. -/
def existence (c : Context) (t : Traversal) (join : JoinKind) : Lowering Operator := do
  Traced.emit [.existence c.step join]
  let plan ← c.build t (c.step.position.child 0)
  return .apply plan.operators join none

end Context
end TraversalPlan

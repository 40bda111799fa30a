import TraversalPlan.Lowering.Dedup
import TraversalPlan.Lowering.Group
import TraversalPlan.Lowering.Order
import TraversalPlan.Lowering.Sample
import TraversalPlan.Lowering.Select
import TraversalPlan.Lowering.Where

/-!
# Lowering traversals

A plan is the concatenation of what the steps are lowered to. A modulated step lowers its subqueries
in the same way, one level of nesting further in.

* `Step.lower`: the operators of a step, with how its subqueries are lowered given.
* `Builder.ofDepth`: lowers traversals up to a nesting depth.
* `Traversal.buildEnding`: lowers a traversal under a position. The steps of a whole query may be
  lowered at the same time, and end in a given order.
* `Traversal.build`: the same with the steps ending in order.
-/

namespace TraversalPlan

/-! ## Steps -/

/-- The operators of a modulated step. -/
def ModulatedStep.lowerIn (m : ModulatedStep) (c : Context) : Lowering (List Operator) :=
  match m with
  | select s => s.lower c
  | dedup s => s.lower c
  | sample s => s.lower c
  | order s => s.lower c
  | group s => s.lower c
  | wherePredicate s => s.lower c
  | whereTraversal t => t.lowerWhere c
  | not t => t.lowerNot c

/-- The operators of a kind of step. -/
def StepKind.lowerIn (k : StepKind) (c : Context) : Lowering (List Operator) :=
  match k with
  | elementary s =>
    match s.lower c.step.position with
    | .ok operators => pure operators
    | .error fault => c.fail fault
  | modulated m => m.lowerIn c

/-- The first label of a step names its result; further labels are not used. -/
def Step.binding (s : Step) : List Operator :=
  match s.labels with
  | [] => []
  | label :: _ => [.bind (.named label)]

/-- The operators of a step at a position. -/
def Step.lower (build : Builder) (config : Config) (s : Step) (position : Position) :
    Lowering (List Operator) := do
  let context := Context.mk build config ⟨s.name, position⟩
  let operators ← s.kind.lowerIn context
  let operators := operators ++ s.binding
  Traced.emit (operators.map fun o => Event.emitted context.step o.name)
  return operators

/-! ## Traversals -/

namespace Builder

/-- Lowers the steps of a traversal one after the other. -/
def ofSteps (build : Builder) (config : Config) : Builder := fun t scope => do
  let parts ← Traced.traverse (fun (s, i) => Step.lower build config s (scope.child i))
    t.steps.zipIdx
  return ⟨parts.flatten⟩

/-- Stands for the subqueries of steps that have none. -/
def unused : Builder := fun _ _ => pure ⟨[]⟩

/-- Lowers traversals whose sub-traversals are nested no deeper than given. -/
def ofDepth (config : Config) : Nat → Builder
  | 0 => ofSteps unused config
  | depth + 1 => ofSteps (ofDepth config depth) config

end Builder

/-- The items of outcomes if there is no failure, otherwise the failure that comes first in the order
of finishing. -/
def gather {ε α : Type} (finish : List Nat) (outcomes : List (Except ε α)) : Except ε (List α) :=
  let failure : Option ε := finish.findSome? fun i =>
    match outcomes[i]? with
    | some (Except.error e) => some e
    | _ => none
  match failure with
  | some e => .error e
  | none => outcomes.mapM id

namespace Traversal

/-- Lowers a traversal step by step. -/
def buildInOrder (config : Config) (t : Traversal) (scope : Position) : Lowering Plan :=
  Builder.ofDepth config t.depth t scope

/-- What becomes of the steps, each lowered by itself. -/
def outcomes (config : Config) (t : Traversal) (scope : Position) :
    List (Lowering (List Operator)) :=
  t.steps.zipIdx.map fun x =>
    Step.lower (Builder.ofDepth config t.depth) config x.1 (scope.child x.2)

/-- Lowers the steps at the same time. The steps end in the order of the given indexes. -/
def buildFinishing (finish : List Nat) (config : Config) (t : Traversal) (scope : Position) :
    Lowering Plan :=
  let outcomes := t.outcomes config scope
  ⟨outcomes.flatMap Traced.log,
    (gather finish (outcomes.map Traced.result)).map fun parts => ⟨parts.flatten⟩⟩

/-- Lowers a traversal whose steps stand under a position. Only the steps of a whole query are lowered
at the same time. Nothing in a query says in which order they end then, so this is given. -/
def buildEnding (order : List Nat) (config : Config) (t : Traversal) (scope : Position) :
    Lowering Plan :=
  if config.parallel && scope.isRoot then t.buildFinishing order config scope
  else t.buildInOrder config scope

/-- Lowers a traversal whose steps end in the order in which they stand. -/
def build (config : Config) (t : Traversal) (scope : Position) : Lowering Plan :=
  t.buildEnding (List.range t.steps.length) config scope

/-- The plan of a whole query, with the order in which steps end that are lowered at the same time. -/
def lowerEnding (order : List Nat) (config : Config) (t : Traversal) : Except LoweringError Plan :=
  (t.buildEnding order config .root).result

/-- The plan of a whole query whose steps end in the order in which they stand. -/
def lower (config : Config) (t : Traversal) : Except LoweringError Plan :=
  t.lowerEnding (List.range t.steps.length) config

end Traversal

/-- The operators of a modulated step at a position. -/
def ModulatedStep.lower (config : Config) (m : ModulatedStep) (position : Position) :
    Lowering (List Operator) :=
  m.lowerIn ⟨Builder.ofDepth config m.depth, config, ⟨m.name, position⟩⟩

end TraversalPlan

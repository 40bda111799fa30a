import TraversalPlan.Lowering.Context
import TraversalPlan.Lowering.Elementary

/-!
# Lowering `group`

A key is resolved like a sort key. A value is never a subquery: its last step gives the aggregate and
the steps before it must be pure, being the source of the aggregate.

* `AggregateKind.distinct`: the aggregate of distinct values, where there is one.
* `GroupStep.aggregate`: the aggregate of a value traversal.
* `GroupStep.lower`: a subquery for each key that needs one, then one operator.
-/

namespace TraversalPlan

/-- The aggregate of distinct values. Other aggregates than a count and a list have no such form. -/
def AggregateKind.distinct : AggregateKind → AggregateKind
  | count => countDistinct
  | toList => toSet
  | kind => kind

namespace GroupStep

/-- Splits steps into all but the last and the last. -/
def splitLast? (steps : List Step) : Option (List Step × Step) :=
  steps.getLast?.map fun last => (steps.dropLast, last)

/-- The last of some steps is a `dedup`. -/
def endsInDedup (steps : List Step) : Bool :=
  match steps.getLast? with
  | some ⟨.modulated (.dedup _), _⟩ => true
  | _ => false

/-- Leaves out a `dedup` of the current record at the end. -/
def dropPlainDedup (steps : List Step) : List Step :=
  match steps.getLast? with
  | some ⟨.modulated (.dedup d), _⟩ => if d.isPlain then steps.dropLast else steps
  | _ => steps

/-- The source of an aggregate: the expression of the steps before it, or none if there are none. -/
def source (c : Context) (steps : List Step) : Lowering (Option String) :=
  if steps.isEmpty then pure none
  else do
    match ← c.one (extractSteps steps) with
    | some e => return some e
    | none => c.fail .impureGroupSource

/-- The aggregate of a value traversal. A `dedup` right before the last step makes it distinct. -/
def aggregate (c : Context) (value : Traversal) (a : Alias) : Lowering Aggregate :=
  match splitLast? value.steps with
  | none => c.fail .emptyGroupValue
  | some (steps, ⟨.elementary (.reduce r), _⟩) => do
    let kind := AggregateKind.ofReducer r
    let source ← source c (dropPlainDedup steps)
    return ⟨if endsInDedup steps then kind.distinct else kind, source, a⟩
  | some (_, last) => c.fail (.notAnAggregate last.name)

/-- The column of a key: the first label of its last step, or a generated alias. -/
def keyAlias (c : Context) (key : Traversal) (i : Nat) : Alias :=
  match key.endStep?.bind fun s => s.labels.head? with
  | some label => .named label
  | none => c.column .groupKey "" i

def lower (s : GroupStep) (c : Context) : Lowering (List Operator) := do
  let resolved ← Traced.traverse (fun (k, i) => c.resolve k i) s.keyTraversals.zipIdx
  let keys := resolved.zipWith (fun r (k, i) => GroupKey.mk r.expression (keyAlias c k i))
    s.keyTraversals.zipIdx
  let values ← Traced.traverse (fun (v, i) => aggregate c v (c.column .groupValue "" i))
    s.valueTraversals.zipIdx
  return Resolved.operators resolved (.group keys values)

end GroupStep
end TraversalPlan

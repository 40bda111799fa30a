import TraversalPlan.Expression.Extraction
import TraversalPlan.Lowering.Fault
import TraversalPlan.Plan.Basic

/-!
# Elementary steps

An elementary step is at most one operator.

* `AggregateKind.ofReducer`: the aggregate of a reducing step.
* `ElementaryStep.expr?`: the expression of a filter or of a property.
* `ElementaryStep.lower`: the operators of an elementary step at a position.
-/

namespace TraversalPlan

def AggregateKind.ofReducer : Reducer → AggregateKind
  | .count => .count
  | .fold => .toList
  | .sum => .sum
  | .mean => .avg
  | .min => .min
  | .max => .max

namespace ElementaryStep

/-- The expression of the step by itself. -/
def expr? (s : ElementaryStep) : Option String := (extractSteps [⟨.elementary s, []⟩]).single?

/-- The operators of the step. Only a range that ends before it begins has none to give, since a
filter or a property always has an expression. -/
def lower (position : Position) (s : ElementaryStep) : Except Fault (List Operator) :=
  match s with
  | source element ids => .ok [.source element ids]
  | expand direction element labels => .ok [.expand direction element labels]
  | endpoint which => .ok [.endpoint which]
  | hasLabel [] => .ok []
  | has _ | hasLabel _ | is _ =>
    match s.expr? with
    | some predicate => .ok [.select predicate]
    | none => .error .filterWithoutExpression
  | values _ | id | label =>
    match s.expr? with
    | some expression => .ok [.project [⟨expression, none⟩]]
    | none => .error .propertyWithoutExpression
  | identity => .ok []
  | limit count => .ok [.limit 0 count]
  | range lower upper =>
    if upper < lower then .error (.emptyRange lower upper) else .ok [.limit lower upper]
  | reduce r => .ok [.group [] [⟨.ofReducer r, none, .allocate .groupValue "" position 0⟩]]

end ElementaryStep
end TraversalPlan

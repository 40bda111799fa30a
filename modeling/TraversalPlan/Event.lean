import TraversalPlan.Plan.Names

/-!
# Events

* `Event`: what lowering and decoding log on their way.
* `Event.level`, `Event.message`, `Event.fields`: an event as it is written.
-/

namespace TraversalPlan

inductive Event where
  /-- A subquery is about to be lowered, to be bound to an alias. -/
  | subquery (step : StepRef) (column : Alias)
  /-- A subquery is about to be lowered for whether it yields anything. -/
  | existence (step : StepRef) (join : JoinKind)
  /-- A step has been lowered, and this operator is part of the outcome. -/
  | emitted (step : StepRef) (operator : String)
  /-- An element without content has been decoded. -/
  | unsetElement
deriving DecidableEq, Repr

namespace Event

def level : Event → String
  | subquery _ _ => "DEBUG"
  | existence _ _ => "DEBUG"
  | emitted _ _ => "TRACE"
  | unsetElement => "ERROR"

def message : Event → String
  | subquery _ _ => "materializing subquery"
  | existence _ _ => "materializing existence subquery"
  | emitted _ _ => "emitted operator"
  | unsetElement => "graph element type not set"

/-- The fields of the event by name. -/
def fields : Event → List (String × String)
  | subquery step a => [("step", step.text), ("alias", a.name)]
  | existence step join => [("step", step.text), ("join", join.name)]
  | emitted step operator =>
    [("position", step.position.text), ("step", step.name), ("operator", operator)]
  | unsetElement => []

end Event

end TraversalPlan

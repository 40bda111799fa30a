import TraversalPlan.Plan.Basic

/-!
# Names of plan vocabulary

The words for the alternatives of an operator, in documents, tables and events.
-/

namespace TraversalPlan

def ElementKind.name : ElementKind → String
  | vertex => "Vertex"
  | edge => "Edge"

def Direction.name : Direction → String
  | outgoing => "Outgoing"
  | incoming => "Incoming"
  | both => "Both"

def Endpoint.name : Endpoint → String
  | source => "Start"
  | target => "End"
  | both => "Both"
  | other => "Other"

def JoinKind.name : JoinKind → String
  | inner => "Inner"
  | semi => "Semi"
  | anti => "Anti"

def SortOrder.name : SortOrder → String
  | ascending => "Ascending"
  | descending => "Descending"
  | shuffle => "Shuffle"

def AggregateKind.name : AggregateKind → String
  | count => "Count"
  | countDistinct => "CountDistinct"
  | sum => "Sum"
  | avg => "Avg"
  | min => "Min"
  | max => "Max"
  | toList => "ToList"
  | toSet => "ToSet"

end TraversalPlan

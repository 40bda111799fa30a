/-!
# Reports

What a user is told when a query cannot be lowered or a result not decoded.

* `Report.text`: the wording.
-/

namespace TraversalPlan

/-- A failure in words. A step is named as in `order@2`. -/
inductive Report where
  /-- A step breaks a rule of the query language. -/
  | invalidStructure (step message : String)
  /-- A step is understood but has no plan. -/
  | unsupported (step message : String)
  | decode (message : String)
  | serialization (message : String)
deriving DecidableEq, Repr

namespace Report

/-- The name of the kind of failure. -/
def kindName : Report → String
  | invalidStructure _ _ => "InvalidStructure"
  | unsupported _ _ => "Unsupported"
  | decode _ => "Decode"
  | serialization _ => "Serialization"

def text : Report → String
  | invalidStructure step message => "invalid structure at " ++ step ++ ": " ++ message
  | unsupported step message => "unsupported at " ++ step ++ ": " ++ message
  | decode message => "decode error: " ++ message
  | serialization message => "serialization error: " ++ message

/-- The step at fault, if the failure has one. -/
def step? : Report → Option String
  | invalidStructure step _ => some step
  | unsupported step _ => some step
  | _ => none

end Report
end TraversalPlan

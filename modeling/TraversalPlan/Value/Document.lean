import TraversalPlan.Json.Basic
import TraversalPlan.Json.Reading
import TraversalPlan.Value.Basic

/-!
# Values in documents

A value stands in a document without any mark of its kind.

* `Value.toJson`: the document of a value; a number that is not finite is written as null.
* `Value.ofDocument?`: an integer literal that fits 64 signed bits is an integer, every other number
  a floating-point number. Objects are no values.
-/

namespace TraversalPlan.Value

mutual

def toJson : Value → Json
  | null => .null
  | bool b => .bool b
  | int i => .int i.toInt
  | float x => .ofFloat x
  | string s => .str s
  | list items => .arr (itemsToJson items)

def itemsToJson : List Value → List Json
  | [] => []
  | v :: vs => toJson v :: itemsToJson vs

end

/-- The value of a number. -/
def ofNumber : Number → Value
  | .natural n =>
    if n.toNat < 0x8000000000000000 then int n.toInt64 else float (Binary64.ofNat n.toNat)
  | .negative i => int i
  | .float x => float x

/-- Reads a value with a budget of open brackets. -/
def ofDocument? : Nat → Document → Option Value
  | _, .null => some null
  | _, .bool b => some (bool b)
  | _, .number literal => (Number.ofLiteral? literal).map ofNumber
  | _, .string raw => (Document.textOf? raw).map string
  | budget + 1, .array items => (items.mapM (ofDocument? budget)).map list
  | _, _ => none

/-- Reads a list of values. -/
def listOfDocument? : Nat → Document → Option (List Value)
  | 0, _ => none
  | budget + 1, d => d.listOf? (ofDocument? budget)

end TraversalPlan.Value

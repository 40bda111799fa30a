import TraversalPlan.Predicate.Basic
import TraversalPlan.Value.Document

/-!
# Predicates in documents

* `Predicate.toJson`, `Predicate.ofDocument?`: a comparison is a record of its operator and operand,
  the operand being null unless given; a connective is the list of its children.
-/

namespace TraversalPlan

namespace CompareOp

def all : List CompareOp :=
  [eq, neq, lt, lte, gt, gte, within, without, startingWith, endingWith, containing]

/-- The name of an operator in documents. -/
def name : CompareOp → String
  | eq => "eq"
  | neq => "neq"
  | lt => "lt"
  | lte => "lte"
  | gt => "gt"
  | gte => "gte"
  | within => "within"
  | without => "without"
  | startingWith => "starting_with"
  | endingWith => "ending_with"
  | containing => "containing"

def toJson (op : CompareOp) : Json := .str op.name

def ofDocument? (budget : Nat) (d : Document) : Option CompareOp := d.choice? all name budget

end CompareOp

namespace Operand

def toJson : Operand → Json
  | literal v => .variant "literal" v.toJson
  | expr e => .variant "expr" (.str e)

def ofDocument? : Nat → Document → Option Operand
  | budget + 1, .object [(raw, payload)] => do
    match ← Document.textOf? raw with
    | "literal" => (Value.ofDocument? budget payload).map literal
    | "expr" => payload.toText?.map expr
    | _ => none
  | _, _ => none

end Operand

namespace Predicate

mutual

def toJson : Predicate → Json
  | compare op operand =>
    .variant "compare" (.obj [("op", op.toJson), ("value", operand.toJson)])
  | all ps => .variant "and" (.arr (childrenToJson ps))
  | any ps => .variant "or" (.arr (childrenToJson ps))
  | not p => .variant "not" (toJson p)

def childrenToJson : List Predicate → List Json
  | [] => []
  | p :: ps => toJson p :: childrenToJson ps

end

/-- Reads the operator and the operand of a comparison. -/
def compareOf? : Nat → Document → Option Predicate
  | 0, _ => none
  | budget + 1, d => do
    match ← d.record? ["op", "value"] with
    | [some op, operand] =>
      let op ← CompareOp.ofDocument? budget op
      let operand ← Document.orDefault? (.literal .null) (Operand.ofDocument? budget) operand
      return compare op operand
    | _ => none

mutual

/-- Reads a predicate with a budget of open brackets. -/
def ofDocument? : Nat → Document → Option Predicate
  | budget + 1, .object [(raw, payload)] => do
    match ← Document.textOf? raw with
    | "compare" => compareOf? budget payload
    | "and" => (childrenOf? budget payload).map all
    | "or" => (childrenOf? budget payload).map any
    | "not" => (ofDocument? budget payload).map not
    | _ => none
  | _, _ => none

/-- Reads the children of a connective. -/
def childrenOf? : Nat → Document → Option (List Predicate)
  | 0, _ => none
  | budget + 1, d => d.listOf? (ofDocument? budget)

end

end Predicate
end TraversalPlan

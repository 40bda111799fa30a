import TraversalPlan.Plan.Names
import TraversalPlan.Value.Document

/-!
# Plans as documents

* `Operator.toJson`: the name of the operator over a record of its fields.
* `Plan.toJson`: the record of a plan.
-/

namespace TraversalPlan

def ProjectItem.toJson (i : ProjectItem) : Json :=
  .obj [("expression", .str i.expression), ("alias", .ofOption Alias.toJson i.column)]

def SortKey.toJson (k : SortKey) : Json :=
  .obj [("expression", .str k.expression), ("order", .str k.order.name)]

def GroupKey.toJson (k : GroupKey) : Json :=
  .obj [("expression", .str k.expression), ("alias", k.column.toJson)]

def Aggregate.toJson (a : Aggregate) : Json :=
  .obj [("kind", .str a.kind.name), ("source", .ofOption .str a.source), ("alias", a.column.toJson)]

def SampleAmount.toJson : SampleAmount → Json
  | count n => .variant "Count" (.ofNat n.toNat)
  | ratio r => .variant "Ratio" (.ofFloat r)

namespace Operator

mutual

def toJson : Operator → Json
  | source element ids =>
    .variant "Source" (.obj [("element", .str element.name), ("ids", .ofList Value.toJson ids)])
  | expand direction element labels =>
    .variant "Expand" (.obj [("direction", .str direction.name), ("element", .str element.name),
      ("labels", .ofList .str labels)])
  | endpoint which => .variant "GetV" (.obj [("opt", .str which.name)])
  | limit lower upper =>
    .variant "Limit" (.obj [("lower", .ofNat lower.toNat), ("upper", .ofNat upper.toNat)])
  | bind a => .variant "As" (.obj [("alias", a.toJson)])
  | apply subplan join a =>
    .variant "Apply" (.obj [("subprogram", .obj [("operators", .arr (operatorsToJson subplan))]),
      ("join_kind", .str join.name), ("alias", .ofOption Alias.toJson a)])
  | project items => .variant "Project" (.obj [("items", .ofList ProjectItem.toJson items)])
  | dedup keys => .variant "Dedup" (.obj [("keys", .ofList .str keys)])
  | order keys => .variant "Order" (.obj [("keys", .ofList SortKey.toJson keys)])
  | group keys values =>
    .variant "Group" (.obj [("keys", .ofList GroupKey.toJson keys),
      ("values", .ofList Aggregate.toJson values)])
  | select predicate => .variant "Select" (.obj [("predicate", .str predicate)])
  | sample amount seed probability =>
    .variant "Sample" (.obj [("amount", amount.toJson), ("seed", .ofNat seed.toNat),
      ("probability", .str probability)])

def operatorsToJson : List Operator → List Json
  | [] => []
  | o :: os => toJson o :: operatorsToJson os

end

end Operator

def Plan.toJson (p : Plan) : Json := .obj [("operators", .arr (Operator.operatorsToJson p.operators))]

end TraversalPlan

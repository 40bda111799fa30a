import TraversalPlan.Lowering.Context

/-!
# Lowering `order`

* `OrderStep.lower`: a subquery for each comparator that needs one, then one operator with a sort key
  for each comparator in order.
-/

namespace TraversalPlan.OrderStep

def lower (s : OrderStep) (c : Context) : Lowering (List Operator) := do
  let resolved ← Traced.traverse (fun (k, i) => c.resolve k.key i) s.sortKeys.zipIdx
  let keys := resolved.zipWith (fun r k => SortKey.mk r.expression k.order) s.sortKeys
  return Resolved.operators resolved (.order keys)

end TraversalPlan.OrderStep

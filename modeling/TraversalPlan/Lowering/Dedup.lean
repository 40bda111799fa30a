import TraversalPlan.Lowering.Context

/-!
# Lowering `dedup`

* `DedupStep.lower`: a subquery for each tag that needs one, then one operator with a key for each.
-/

namespace TraversalPlan.DedupStep

def lower (s : DedupStep) (c : Context) : Lowering (List Operator) := do
  let entries := s.extract.entries
  if entries.length ≠ s.tags.length then c.fail .repeatedDedupKeys
  else
    let resolved ← Traced.traverse
      (fun ((tag, e), i) =>
        c.orSubquery e (s.modulatorOrIdentity.rootedAt tag) (c.column .subquery "" i) i)
      entries.zipIdx
    return Resolved.operators resolved (.dedup (resolved.map Resolved.expression))

end TraversalPlan.DedupStep

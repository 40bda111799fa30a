import TraversalPlan.Lowering.Context

/-!
# Lowering `select`

* `SelectStep.lower`: a subquery for each key that needs one, then one projection. A projection of
  one key replaces the record and has no alias.
-/

namespace TraversalPlan.SelectStep

/-- The expression of the key with a number. -/
def resolveKey (s : SelectStep) (c : Context) (i : Nat) (tag : String) (e : Option String) :
    Lowering Resolved :=
  c.orSubquery e ((s.modulatorFor i).rootedAt tag) (c.column .tagSubquery tag i) i

def lower (s : SelectStep) (c : Context) : Lowering (List Operator) := do
  let entries := s.extract.entries
  if s.keys.isEmpty then c.fail .selectWithoutKeys
  else if entries.length ≠ s.keys.length then c.fail .repeatedSelectKeys
  else
    let resolved ← Traced.traverse (fun (e, i) => s.resolveKey c i e.1 e.2) entries.zipIdx
    let items := (resolved.zip entries.zipIdx).map fun (r, e, i) =>
      ProjectItem.mk r.expression
        (if entries.length = 1 then none else some (c.column .projectedTag e.1 i))
    return Resolved.operators resolved (.project items)

end TraversalPlan.SelectStep

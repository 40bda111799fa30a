import TraversalPlan.Lowering.Context

/-!
# Lowering `sample`

* `SampleAmount.ofNumber?`: a number between zero and one is a fraction, a whole number from one on a
  count.
* `SampleStep.lower`: a subquery for the weight if it needs one, then one operator.
-/

namespace TraversalPlan

/-- The size of a sample. A whole number is a count up to the largest one, which is rounded for the
comparison. -/
def SampleAmount.ofNumber? (x : Binary64) : Option SampleAmount :=
  let (num, den) := x.ratio
  if !x.isFinite || x.negative || num == 0 then none
  else if num < den then some (.ratio x)
  else if num % den = 0 ∧ x.magnitudeLE (.ofNat (UInt64.size - 1)) then some (.count x.toUInt64)
  else none

def SampleStep.lower (s : SampleStep) (c : Context) : Lowering (List Operator) := do
  match SampleAmount.ofNumber? s.amount with
  | none => c.fail (.sampleAmount s.amount)
  | some amount =>
    let weight ← c.resolve s.modulatorOrIdentity 0
    return Resolved.operators [weight]
      (.sample amount (s.seed.getD c.config.defaultSampleSeed) weight.expression)

end TraversalPlan

import TraversalPlan.Position
import TraversalPlan.Report

/-!
# Faults of steps

* `Fault`: why a step has no plan.
* `LoweringError.report`: the fault of a step in words.
-/

namespace TraversalPlan

/-- Why a step has no plan. -/
inductive Fault where
  /-- A range that ends before it begins. -/
  | emptyRange (lower upper : UInt64)
  /-- A filter that is no expression by itself. -/
  | filterWithoutExpression
  /-- A property that is no expression by itself. -/
  | propertyWithoutExpression
  | selectWithoutKeys
  | repeatedSelectKeys
  | repeatedDedupKeys
  /-- A sample size that is neither a count nor a fraction below one. -/
  | sampleAmount (amount : Binary64)
  /-- A modulator that stands for a number of values other than one. -/
  | notOneExpression (count : Nat)
  /-- A group value without steps. -/
  | emptyGroupValue
  /-- A group value whose last step does not reduce. -/
  | notAnAggregate (step : String)
  /-- A group value that moves through the graph before it is reduced. -/
  | impureGroupSource
  /-- A `where` with more or fewer select keys than comparisons. -/
  | keyCount (keys comparisons : Nat)
  /-- A comparison of a `where` after the last select key. -/
  | missingSelectKey
  /-- A `where` with more operands than modulators. -/
  | modulatorsExhausted (consumed : Nat)
deriving DecidableEq, Repr

namespace Fault

/-- The step is understood but has no plan; any other fault breaks a rule of the query language. -/
def isUnsupported : Fault → Bool
  | notAnAggregate _ => true
  | impureGroupSource => true
  | _ => false

def message : Fault → String
  | emptyRange lower upper =>
    "range(" ++ lower.toNat.repr ++ ", " ++ upper.toNat.repr ++ ") is empty"
  | filterWithoutExpression => "filter has no expression form"
  | propertyWithoutExpression => "property has no expression form"
  | selectWithoutKeys => "select() requires at least one key"
  | repeatedSelectKeys => "select() keys must be distinct"
  | repeatedDedupKeys => "dedup() keys must be distinct"
  | sampleAmount amount =>
    "sample amount must be a positive count or a ratio in (0, 1), got " ++ Layout.plain.write amount
  | notOneExpression count => "by() must yield exactly one expression, got " ++ count.repr
  | emptyGroupValue => "group value by() must end in an aggregate step"
  | notAnAggregate step => step ++ "() is not a supported group aggregate"
  | impureGroupSource => "segment apply is unsupported"
  | keyCount keys comparisons =>
    "where() needs one select key per comparison, got " ++ keys.repr ++ " keys for " ++
      comparisons.repr ++ " comparisons"
  | missingSelectKey => "where() has more comparisons than select keys"
  | modulatorsExhausted consumed => "where() ran out of by() modulators after " ++ consumed.repr

end Fault

/-- A step that has no plan. -/
structure LoweringError where
  step : StepRef
  fault : Fault
deriving DecidableEq, Repr

/-- The fault of a step in words. -/
def LoweringError.report (e : LoweringError) : Report :=
  if e.fault.isUnsupported then .unsupported e.step.text e.fault.message
  else .invalidStructure e.step.text e.fault.message

end TraversalPlan

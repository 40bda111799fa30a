import TraversalPlan.Lowering.Elementary

/-!
# Operators of elementary steps

A filter or a property by itself is pure, so its operator holds what is extracted from it. Only a range
has a fault, and any other elementary step is lowered (**`ElementaryStep.lower_eq`**).

* `ElementaryStep.fault?`, `ElementaryStep.operators`: the fault of a step, and its operators if it has
  none.
-/

namespace TraversalPlan.ElementaryStep

/-- The fault of an elementary step. Only a range has one. -/
def fault? : ElementaryStep → Option Fault
  | range lower upper => if upper < lower then some (.emptyRange lower upper) else none
  | _ => none

/-- The operators of a step without a fault. -/
def operators (position : Position) : ElementaryStep → List Operator
  | source element ids => [.source element ids]
  | expand direction element labels => [.expand direction element labels]
  | endpoint which => [.endpoint which]
  | has test => [.select (Expr.conjoin (test.parts ""))]
  | hasLabel [] => []
  | hasLabel labels => [.select (Expr.labelTest "" labels).1]
  | is p => [.select (p.flatten (Expr.subject "" none))]
  | values key => [.project [⟨Expr.subject "" (some key), none⟩]]
  | id => [.project [⟨Expr.subject "" (some Expr.idProperty), none⟩]]
  | label => [.project [⟨Expr.subject "" (some Expr.labelProperty), none⟩]]
  | identity => []
  | limit count => [.limit 0 count]
  | range lower upper => [.limit lower upper]
  | reduce r => [.group [] [⟨.ofReducer r, none, .allocate .groupValue "" position 0⟩]]

variable {s : ElementaryStep} {position : Position}

theorem expr?_of_step? {c : Cursor} (h : Cursor.current.step? s = some c) :
    s.expr? = some c.expr := by
  simp only [expr?, extractSteps, Cursor.through?, h, Option.bind_some]
  rfl

/-- **An elementary step has a fault or operators.** The expression of a filter or of a property is
where a cursor gets to from the current record. -/
theorem lower_eq (s : ElementaryStep) (position : Position) :
    s.lower position = s.fault?.elim (.ok (s.operators position)) .error := by
  cases s with
  | has | is | values | id | label =>
    unfold lower
    dsimp only
    rw [expr?_of_step? rfl]
    rfl
  | hasLabel labels =>
    cases labels with
    | nil => rfl
    | cons =>
      unfold lower
      dsimp only
      rw [expr?_of_step? rfl]
      rfl
  | range lower upper =>
    rw [ElementaryStep.lower, fault?]
    split <;> rfl
  | _ => rfl

theorem lower_eq_ok {ops : List Operator} :
    s.lower position = .ok ops ↔ s.fault? = none ∧ ops = s.operators position := by
  rw [lower_eq]
  cases s.fault? <;> simp [eq_comm]

theorem lower_eq_error {fault : Fault} :
    s.lower position = .error fault ↔ s.fault? = some fault := by
  rw [lower_eq]
  cases s.fault? <;> simp

end TraversalPlan.ElementaryStep

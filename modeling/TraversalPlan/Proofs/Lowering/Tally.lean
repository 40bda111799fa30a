import TraversalPlan.Proofs.Lowering.Log

/-!
# The log tallies with the plan

The log of a plan has one event for each operator at any depth, and announces the `apply` operators
in the order in which they open (**`Traversal.tallies_of_build`**).

* `Traversal.induction_on_subqueries`: what passes from the subqueries of steps to a traversal holds
  of all traversals.
* `Operator.applies`: the subplans of a plan at all depths.
* `Tallies`: a log and some operators agree in number and order. Subqueries, steps and traversals
  do.
-/

namespace TraversalPlan

/-! ## Induction over subqueries -/

theorem ModulatedStep.modulator_of_mem_subqueries {m : ModulatedStep} {policy : ModulatorPolicy}
    {s : Slot} (h : s ∈ m.subqueries policy) : s.modulator ∈ m.modulators := by
  obtain ⟨hmem, hnone⟩ := List.mem_filter.1 h
  rcases List.mem_append.1 hmem with hslots | hfilter
  · rcases eq_identity_or_mem_modulators s hslots with hidentity | hmodulator
    · rw [Slot.expr?_of_identity hidentity] at hnone
      cases hnone
    · exact hmodulator
  · cases m with
    | whereTraversal t =>
      obtain rfl := List.mem_singleton.1 hfilter
      exact List.mem_singleton.2 rfl
    | not t =>
      obtain rfl := List.mem_singleton.1 hfilter
      exact List.mem_singleton.2 rfl
    | _ => cases hfilter

theorem Step.depth_of_mem_subqueries {s : Step} {policy : ModulatorPolicy} {slot : Slot}
    (h : slot ∈ s.subqueries policy) : slot.traversal.depth < s.depth := by
  obtain ⟨kind, labels⟩ := s
  rw [Slot.traversal, Traversal.depth_rootedAt]
  cases kind with
  | elementary s => cases h
  | modulated m =>
    exact ModulatedStep.depth_of_mem_modulators (ModulatedStep.modulator_of_mem_subqueries h)

/-- **A property of traversals holds of all if it passes from the subqueries of the steps.** -/
theorem Traversal.induction_on_subqueries {policy : ModulatorPolicy}
    {P : Traversal → Position → Prop}
    (h : ∀ t scope, (∀ x ∈ t.steps.zipIdx, ∀ s ∈ x.1.subqueries policy,
      P s.traversal ((scope.child x.2).child s.number)) → P t scope) (t : Traversal)
    (scope : Position) : P t scope := by
  induction hn : t.depth using Nat.strong_induction_on generalizing t scope with
  | _ n ih =>
    apply h
    intro x hx s hs
    have hslot : s.traversal.depth < x.1.depth := Step.depth_of_mem_subqueries hs
    have hstep : x.1.depth ≤ stepsDepth t.steps :=
      depth_le_stepsDepth (List.fst_mem_of_mem_zipIdx hx)
    rw [← t.depth_eq, hn] at hstep
    exact ih _ (by omega) _ _ rfl

/-! ## Counting -/

/-- How an announced subquery is merged, and the alias it is bound to. -/
def Event.announced? : Event → Option (JoinKind × Option Alias)
  | subquery _ a => some (.inner, some a)
  | existence _ join => some (join, none)
  | _ => none

@[simp]
theorem Event.level_emitted (step : StepRef) (operator : String) :
    (emitted step operator).level = "TRACE" := rfl

namespace Operator

mutual

/-- How the subplans at all depths are merged, each with the alias it is bound to. An `apply` comes
before those inside it. -/
def applies : Operator → List (JoinKind × Option Alias)
  | apply subplan join column => (join, column) :: appliesOf subplan
  | _ => []

def appliesOf : List Operator → List (JoinKind × Option Alias)
  | [] => []
  | o :: os => applies o ++ appliesOf os

end

theorem operatorsCount_append (os ps : List Operator) :
    operatorsCount (os ++ ps) = operatorsCount os + operatorsCount ps := by
  induction os with
  | nil => simp [operatorsCount]
  | cons o os ih =>
    rw [List.cons_append, operatorsCount, operatorsCount, ih]
    omega

theorem appliesOf_append (os ps : List Operator) :
    appliesOf (os ++ ps) = appliesOf os ++ appliesOf ps := by
  induction os with
  | nil => rfl
  | cons o os ih => rw [List.cons_append, appliesOf, appliesOf, ih, List.append_assoc]

theorem applies_of_ne {o : Operator} (h : o.name ≠ "Apply") :
    o.applies = [] ∧ o.operatorCount = 1 := by
  cases o with
  | apply subplan join column => exact absurd rfl h
  | _ => exact ⟨rfl, rfl⟩

end Operator

open Operator

/-- The log has one event for each operator at any depth, and announces the `apply` operators in the
order in which they open. -/
structure Tallies (ops : List Operator) (log : List Event) : Prop where
  count : log.countP (fun e => e.level = "TRACE") = operatorsCount ops
  order : (log.filter fun e => e.level = "DEBUG").map Event.announced? = (appliesOf ops).map some

section Tallies

variable {config : Config} {step : StepRef}

theorem Tallies.append {ops ops' : List Operator} {log log' : List Event} (h : Tallies ops log)
    (h' : Tallies ops' log') : Tallies (ops ++ ops') (log ++ log') := by
  constructor
  · rw [List.countP_append, operatorsCount_append, h.count, h'.count]
  · rw [List.filter_append, List.map_append, appliesOf_append, List.map_append, h.order, h'.order]

theorem Announces.level {join : JoinKind} {column : Option Alias} {event : Event}
    (h : Announces step join column event) :
    event.level = "DEBUG" ∧ event.announced? = some (join, column) := by
  cases h <;> exact ⟨rfl, rfl⟩

theorem Mirrors.tallies {slots : List Slot} {ops : List Operator} {log : List Event}
    (h : Mirrors config step slots ops log)
    (hinner : ∀ s ∈ slots, ∀ plan, (s.lower config step).result = .ok plan →
      Tallies plan.operators (s.lower config step).log) :
    Tallies ops (log ++ ops.map fun o => .emitted step o.name) := by
  induction h with
  | nil => exact ⟨rfl, rfl⟩
  | @other slots o ops log other _ ih =>
    obtain ⟨happlies, hone⟩ := applies_of_ne other
    obtain ⟨hcount, horder⟩ := ih hinner
    constructor
    · rw [operatorsCount, hone, ← hcount]
      simp only [List.map_cons, List.countP_append, List.countP_cons, Event.level_emitted]
      simp only [decide_true, if_true]
      omega
    · rw [appliesOf, happlies, List.nil_append, ← horder]
      simp [List.filter_append]
  | @apply s slots plan join column ops event log announced lowered _ ih =>
    obtain ⟨hcount, horder⟩ := ih fun s' hs' => hinner s' (List.mem_cons_of_mem _ hs')
    have hs : Tallies plan.operators (s.lower config step).log :=
      hinner s List.mem_cons_self plan lowered
    obtain ⟨hlevel, hannounced⟩ := announced.level
    constructor
    · have hevent : ¬ event.level = "TRACE" := by rw [hlevel]; decide
      rw [operatorsCount, operatorCount, ← hs.count, ← hcount]
      simp only [List.cons_append, List.map_cons, List.countP_append, List.countP_cons,
        Event.level_emitted, hevent]
      simp only [decide_true, decide_false, if_true, if_false, Bool.false_eq_true]
      omega
    · have happlies : (appliesOf (.apply plan.operators join column :: ops)).map some =
          some (join, column) :: ((appliesOf plan.operators).map some ++ (appliesOf ops).map some) := by
        rw [appliesOf, applies, List.cons_append, List.map_cons, List.map_append]
      rw [happlies, ← hs.order, ← horder]
      simp [hlevel, hannounced]

theorem StepsLog.tallies {scope : Position} {steps : List (Step × Nat)}
    {parts : List (List Operator × List Event)} (h : StepsLog config scope steps parts)
    (hinner : ∀ x ∈ steps, ∀ s ∈ x.1.subqueries config.policy, ∀ plan,
      (s.lower config ⟨x.1.name, scope.child x.2⟩).result = .ok plan →
        Tallies plan.operators (s.lower config ⟨x.1.name, scope.child x.2⟩).log) :
    Tallies (parts.flatMap Prod.fst) (parts.flatMap Prod.snd) := by
  induction h with
  | nil => exact ⟨rfl, rfl⟩
  | @cons x part steps parts hx _ ih =>
    obtain ⟨hhead, htail⟩ := List.forall_mem_cons.1 hinner
    obtain ⟨subqueries, hmirrors, hlog⟩ := hx.mirrors
    have hpart : Tallies part.1 part.2 := by
      rw [hlog]
      exact hmirrors.tallies hhead
    rw [List.flatMap_cons, List.flatMap_cons]
    exact hpart.append (ih htail)

/-- **A plan tallies with its log.** -/
theorem Traversal.tallies_of_build (t : Traversal) (scope : Position) :
    (config.parallel && scope.isRoot) = false → ∀ plan, (t.build config scope).result = .ok plan →
      Tallies plan.operators (t.build config scope).log := by
  apply @induction_on_subqueries config.policy _ _ t scope
  intro t scope ih sequential plan hplan
  obtain ⟨parts, hparts, hops, hlog⟩ := logs_of_build sequential hplan
  rw [hops, hlog]
  exact hparts.tallies fun x hx s hs => ih x hx s hs (sequential_child _ _ _)

end Tallies

end TraversalPlan

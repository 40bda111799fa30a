import TraversalPlan.Proofs.Lowering.Parallel
import TraversalPlan.Proofs.Lowering.Tally

/-!
# Calls inside one another

A traversal is lowered by a call that lowers subqueries by further calls. A subquery is not always a
part of the query: the record of a tag is selected before the modulator. But this `select` is pure and
has no modulators itself, so a subquery is nested less deep than the step that runs it. Therefore at
most one call more is open at a time than there are sub-traversals inside one another, and the
subplans of a plan are nested no deeper than the query (**`Traversal.nesting_of_build`**).

* `Builder.call`, `Builder.calls`: one call, with the further calls left open; some calls inside one
  another.
* `Builder.call_congr`: what a call asks of the further calls.
* `Traversal.buildEnding_eq_call`: lowering is a call whose further calls are lowerings.
* `Plan.nesting`: the largest number of subplans inside one another.
-/

namespace TraversalPlan

/-! ## Calls -/

namespace Builder

/-- Lowers a traversal, with the lowering of its subqueries given. The steps of a whole query may be
lowered at the same time, and then they end in the order of the given indexes. -/
def call (order : List Nat) (config : Config) (build : Builder) : Builder := fun t scope =>
  if config.parallel && scope.isRoot then
    let outcomes := t.steps.zipIdx.map fun x => Step.lower build config x.1 (scope.child x.2)
    ⟨outcomes.flatMap Traced.log,
      (gather order (outcomes.map Traced.result)).map fun parts => ⟨parts.flatten⟩⟩
  else ofSteps build config t scope

/-- Lowers by a number of calls inside one another. What would be one call more is left to `rest`. -/
def calls (order : List Nat) (config : Config) (rest : Builder) : Nat → Builder
  | 0 => rest
  | n + 1 => call order config (calls order config rest n)

variable {order : List Nat} {config : Config} {build build' : Builder}

/-- **A call asks only for subqueries that are nested less deep.** -/
theorem call_congr {t : Traversal} {scope : Position}
    (h : ∀ t' p i, t'.depth < t.depth → build t' (Position.child p i) = build' t' (p.child i)) :
    call order config build t scope = call order config build' t scope := by
  have houtcomes : (t.steps.zipIdx.map fun x => Step.lower build config x.1 (scope.child x.2)) =
      t.steps.zipIdx.map fun x => Step.lower build' config x.1 (scope.child x.2) := by
    refine List.map_congr_left fun x hx => Step.lower_congr fun t' i ht' => h t' _ i ?_
    have hdepth := depth_le_stepsDepth (List.fst_mem_of_mem_zipIdx hx)
    rw [t.depth_eq]
    omega
  unfold call
  rw [houtcomes, ofSteps_congr h]

end Builder

namespace Traversal

variable {order : List Nat} {config : Config}

/-- **Lowering is a call whose further calls are lowerings.** -/
theorem buildEnding_eq_call (t : Traversal) (scope : Position) :
    t.buildEnding order config scope =
      Builder.call order config (fun t scope => t.buildEnding order config scope) t scope := by
  have hsequential : ∀ {scope}, (config.parallel && scope.isRoot) = false → ∀ t : Traversal,
      t.buildEnding order config scope = t.buildInOrder config scope := fun h t => by
    rw [buildEnding, h, if_neg Bool.false_ne_true]
  -- subqueries stand under a position, so their steps are lowered one after the other
  have hinner : ∀ (t : Traversal) (p : Position) (i : Nat) {n}, t.depth ≤ n →
      t.buildEnding order config (p.child i) = Builder.ofDepth config n t (p.child i) := by
    intro t p i n hn
    rw [hsequential (sequential_child config p i), ← build_of_sequential (sequential_child config p i),
      build_child config hn]
  cases hparallel : config.parallel && scope.isRoot with
  | false =>
    rw [hsequential hparallel, buildInOrder_eq, Builder.call, hparallel, if_neg Bool.false_ne_true]
    refine Builder.ofSteps_congr fun t' p i _ => ?_
    rw [build_child config (Nat.le_refl _), hinner t' p i (Nat.le_refl _)]
  | true =>
    have houtcomes : t.outcomes config scope = t.steps.zipIdx.map fun x =>
        Step.lower (fun t scope => t.buildEnding order config scope) config x.1
          (scope.child x.2) := by
      refine List.map_congr_left fun x hx => Step.lower_congr fun t' i ht' => ?_
      have hdepth := depth_le_stepsDepth (List.fst_mem_of_mem_zipIdx hx)
      rw [hinner t' _ i (n := t.depth) (by rw [t.depth_eq]; omega)]
    rw [buildEnding, Builder.call, hparallel, if_pos rfl, if_pos rfl, ← houtcomes]
    rfl

/-- **One call more than there are sub-traversals inside one another** is enough: a deeper call is never
made. -/
theorem calls_eq_buildEnding (rest : Builder) {n : Nat} {t : Traversal} (h : t.depth < n)
    (scope : Position) :
    Builder.calls order config rest n t scope = t.buildEnding order config scope := by
  induction n generalizing t scope with
  | zero => exact absurd h (Nat.not_lt_zero _)
  | succ n ih =>
    rw [buildEnding_eq_call, Builder.calls]
    exact Builder.call_congr fun t' p i ht' => ih (by omega) (p.child i)

end Traversal

/-! ## Subplans inside one another -/

namespace Operator

mutual

/-- The number of subplans inside one another. -/
def nesting : Operator → Nat
  | apply subplan _ _ => nestings subplan + 1
  | _ => 0

def nestings : List Operator → Nat
  | [] => 0
  | o :: os => max (nesting o) (nestings os)

end

theorem nestings_append (os ps : List Operator) :
    nestings (os ++ ps) = max (nestings os) (nestings ps) := by
  induction os with
  | nil => rw [List.nil_append, nestings, Nat.zero_max]
  | cons o os ih => rw [List.cons_append, nestings, nestings, ih, Nat.max_assoc]

theorem nesting_of_ne {o : Operator} (h : o.name ≠ "Apply") : o.nesting = 0 := by
  cases o with
  | apply subplan join column => exact absurd rfl h
  | _ => rfl

end Operator

/-- The largest number of subplans inside one another. -/
def Plan.nesting (p : Plan) : Nat := Operator.nestings p.operators

section

open Operator

variable {config : Config} {step : StepRef} {n : Nat}

theorem Mirrors.nestings_le {slots : List Slot} {ops : List Operator} {log : List Event}
    (h : Mirrors config step slots ops log)
    (hinner : ∀ s ∈ slots, ∀ plan, (s.lower config step).result = .ok plan → plan.nesting < n) :
    nestings ops ≤ n := by
  induction h with
  | nil => exact Nat.zero_le _
  | other other _ ih =>
    rw [nestings, nesting_of_ne other, Nat.zero_max]
    exact ih hinner
  | @apply s slots plan join column ops event log announced lowered _ ih =>
    have hplan : plan.nesting < n := hinner s List.mem_cons_self plan lowered
    have hrest := ih fun s' hs' => hinner s' (List.mem_cons_of_mem _ hs')
    rw [nestings, nesting]
    exact Nat.max_le.2 ⟨hplan, hrest⟩

theorem StepsLog.nestings_le {scope : Position} {steps : List (Step × Nat)}
    {parts : List (List Operator × List Event)} (h : StepsLog config scope steps parts)
    (hinner : ∀ x ∈ steps, ∀ s ∈ x.1.subqueries config.policy, ∀ plan,
      (s.lower config ⟨x.1.name, scope.child x.2⟩).result = .ok plan → plan.nesting < n) :
    nestings (parts.flatMap Prod.fst) ≤ n := by
  induction h with
  | nil => exact Nat.zero_le _
  | @cons x part steps parts hx _ ih =>
    obtain ⟨hhead, htail⟩ := List.forall_mem_cons.1 hinner
    obtain ⟨subqueries, hmirrors, -⟩ := hx.mirrors
    rw [List.flatMap_cons, nestings_append]
    exact Nat.max_le.2 ⟨hmirrors.nestings_le hhead, ih htail⟩

end

namespace Traversal

theorem nesting_le_of_sequential {policy : ModulatorPolicy} {seed : UInt64} (t : Traversal)
    (scope : Position) : ∀ plan, (t.build ⟨policy, seed, false⟩ scope).result = .ok plan →
      plan.nesting ≤ t.depth := by
  induction t, scope using @induction_on_subqueries policy with
  | h t scope ih =>
    intro plan hplan
    obtain ⟨parts, hparts, hops, -⟩ := logs_of_build rfl hplan
    rw [Plan.nesting, hops]
    refine hparts.nestings_le fun x hx s hs plan hlower => ?_
    have hslot : s.traversal.depth < x.1.depth := Step.depth_of_mem_subqueries hs
    have hstep := depth_le_stepsDepth (List.fst_mem_of_mem_zipIdx hx)
    rw [t.depth_eq]
    have := ih x hx s hs plan hlower
    omega

/-- **Lowering comes to an end within the nesting of the query.** It is a call that lowers subqueries by
further calls. At most one call more is open at a time than there are sub-traversals inside one
another, since what any deeper call would do does not matter. A plan that comes of it has no more
subplans inside one another than there are sub-traversals. -/
theorem nesting_of_build (order : List Nat) (config : Config) (t : Traversal) (scope : Position) :
    t.buildEnding order config scope =
        Builder.call order config (fun t scope => t.buildEnding order config scope) t scope ∧
      (∀ n, t.depth < n → ∀ rest : Builder,
        Builder.calls order config rest n t scope = t.buildEnding order config scope) ∧
      ∀ plan, (t.buildEnding order config scope).result = .ok plan → plan.nesting ≤ t.depth := by
  refine ⟨buildEnding_eq_call t scope, fun n hn rest => calls_eq_buildEnding rest hn scope, ?_⟩
  intro plan hplan
  exact nesting_le_of_sequential t scope plan (build_eq_ok_of_ending hplan)

/-- Selects a tag by the neighbours with a tagged record of theirs, which is found by its own
neighbours. -/
def selectNeighbours : Traversal :=
  let neighbours := identity.outgoing []
  identity.selectBy ["a"] [neighbours.selectBy ["b"] [neighbours]]

theorem nesting_of_build_selectNeighbours :
    selectNeighbours.depth < 3 ∧
      Builder.calls [0] .standard Builder.unused 3 selectNeighbours .root =
        selectNeighbours.buildEnding [0] .standard .root ∧
      ∃ plan, (selectNeighbours.buildEnding [0] .standard .root).result = .ok plan ∧
        plan.nesting = 2 ∧ plan.nesting ≤ selectNeighbours.depth := by
  have hdepth : selectNeighbours.depth = 2 := by decide
  have hnesting : (selectNeighbours.buildEnding [0] .standard .root).result.map Plan.nesting =
      .ok 2 := by cbv
  obtain ⟨-, hcalls, hplan⟩ := nesting_of_build [0] .standard selectNeighbours .root
  refine ⟨by omega, hcalls 3 (by omega) _, ?_⟩
  cases h : (selectNeighbours.buildEnding [0] .standard .root).result with
  | error e =>
    rw [h] at hnesting
    cases hnesting
  | ok plan =>
    rw [h] at hnesting
    exact ⟨plan, rfl, Except.ok.inj hnesting, hplan plan h⟩

end Traversal
end TraversalPlan

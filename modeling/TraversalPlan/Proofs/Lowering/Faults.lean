import TraversalPlan.Proofs.Lowering.Aggregates
import TraversalPlan.Proofs.Lowering.Depth
import TraversalPlan.Proofs.Lowering.Policy

/-!
# When a traversal has no plan

Steps are looked at in evaluation order: one after the other, and inside a step the slots from left to
right. A slot that needs a subquery is entered there and then, before the next one is looked at.
Lowering fails just if some step that is looked at has a fault, and the failure is the first of the
faults (**`Traversal.build_eq_error`**).

* `Task`: what a step comes to in turn. It is refused for a fault, or it enters a sub-traversal.
* `ModulatedStep.tasks`, `Step.tasks`, `Traversal.tasks`: the faults of each step and the
  sub-traversals it enters, in order.
* `Reaches`, `FirstFault`: the faults that tasks lead to, and the first of them.
* `Follows`: a computation fails as its tasks say. Sequences and lists keep to this.
-/

namespace TraversalPlan

/-! ## Tasks -/

/-- What a step comes to while it is lowered. -/
inductive Task where
  /-- The step has a fault. -/
  | refuse (e : LoweringError)
  /-- A sub-traversal needs a subquery, whose steps stand under a position. -/
  | enter (t : Traversal) (scope : Position)

/-- The step is refused if it has a fault. -/
def Task.ofFault? (step : StepRef) : Option Fault → List Task
  | none => []
  | some fault => [.refuse ⟨step, fault⟩]

/-- How many operands a policy supplies with modulators, if there is a limit. -/
def Modulators.supply? : List Traversal → ModulatorPolicy → Option Nat
  | [], _ => none
  | [_], .broadcast => none
  | _, .cycle => none
  | bys, _ => some bys.length

/-- A slot that has not one entry is refused; one without an expression is entered. -/
def Slot.tasks (step : StepRef) (s : Slot) : List Task :=
  if s.extraction.size ≠ 1 then [.refuse ⟨step, .notOneExpression s.extraction.size⟩]
  else if s.expr? = none then [.enter s.traversal (step.position.child s.number)]
  else []

namespace GroupStep

def valueTasks (step : StepRef) (value : Traversal) : List Task :=
  Task.ofFault? step (valueFault? value)

end GroupStep

namespace ModulatedStep

/-- What is left to come to when the slots are filled. -/
def terminalTasks (policy : ModulatorPolicy) (step : StepRef) : ModulatedStep → List Task
  | group s => s.valueTraversals.flatMap (GroupStep.valueTasks step)
  | wherePredicate s =>
    match Modulators.supply? s.bys policy with
    | none => []
    | some n =>
      if n < s.selectKeys.length + 1 then [.refuse ⟨step, .modulatorsExhausted (n + 1)⟩] else []
  | whereTraversal t => Slot.tasks step ⟨"", t, true, .subquery, 0⟩
  | not t => Slot.tasks step ⟨"", t, true, .subquery, 0⟩
  | _ => []

/-- What a modulated step comes to: a fault of the step itself, or else its slots in order and what is
left after them. -/
def tasks (policy : ModulatorPolicy) (step : StepRef) (m : ModulatedStep) : List Task :=
  match m.fault? with
  | some fault => [.refuse ⟨step, fault⟩]
  | none => (m.slots policy).flatMap (Slot.tasks step) ++ m.terminalTasks policy step

end ModulatedStep

/-- What a step at a position comes to. -/
def Step.tasks (policy : ModulatorPolicy) (s : Step) (position : Position) : List Task :=
  match s.kind with
  | .elementary e => Task.ofFault? ⟨s.name, position⟩ e.fault?
  | .modulated m => m.tasks policy ⟨s.name, position⟩

/-- What the steps of a traversal come to, one after the other. -/
def Traversal.tasks (policy : ModulatorPolicy) (t : Traversal) (scope : Position) : List Task :=
  t.steps.zipIdx.flatMap fun (s, i) => s.tasks policy (scope.child i)

/-- Tasks lead to a fault, be it inside a sub-traversal. -/
inductive Reaches (policy : ModulatorPolicy) : List Task → LoweringError → Prop
  | refuse {ts : List Task} {e : LoweringError} (mem : .refuse e ∈ ts) : Reaches policy ts e
  | enter {ts : List Task} {e : LoweringError} {t : Traversal} {scope : Position}
    (mem : .enter t scope ∈ ts) (inner : Reaches policy (t.tasks policy scope) e) :
    Reaches policy ts e

/-- The first fault that tasks lead to. A sub-traversal that is entered comes before what follows. -/
inductive FirstFault (policy : ModulatorPolicy) : List Task → LoweringError → Prop
  | refuse (e : LoweringError) (rest : List Task) : FirstFault policy (.refuse e :: rest) e
  | enter {t : Traversal} {scope : Position} {rest : List Task} {e : LoweringError}
    (first : FirstFault policy (t.tasks policy scope ++ rest) e) :
    FirstFault policy (.enter t scope :: rest) e

section

variable {policy : ModulatorPolicy} {ts us : List Task} {t : Traversal} {scope : Position}
  {e : LoweringError}

theorem not_reaches_nil : ¬ Reaches policy [] e := by
  intro h
  cases h with
  | refuse mem => exact List.not_mem_nil mem
  | enter mem inner => exact List.not_mem_nil mem

theorem reaches_append :
    Reaches policy (ts ++ us) e ↔ Reaches policy ts e ∨ Reaches policy us e := by
  constructor
  · intro h
    cases h with
    | refuse mem => exact (List.mem_append.1 mem).imp .refuse .refuse
    | enter mem inner =>
      exact (List.mem_append.1 mem).imp (fun h => .enter h inner) fun h => .enter h inner
  · rintro (h | h)
    · cases h with
      | refuse mem => exact .refuse (List.mem_append_left _ mem)
      | enter mem inner => exact .enter (List.mem_append_left _ mem) inner
    · cases h with
      | refuse mem => exact .refuse (List.mem_append_right _ mem)
      | enter mem inner => exact .enter (List.mem_append_right _ mem) inner

theorem reaches_enter :
    Reaches policy [.enter t scope] e ↔ Reaches policy (t.tasks policy scope) e := by
  constructor
  · intro h
    cases h with
    | refuse mem => simp at mem
    | enter mem inner =>
      obtain ⟨rfl, rfl⟩ := Task.enter.inj (List.mem_singleton.1 mem)
      exact inner
  · exact .enter (List.mem_singleton.2 rfl)

theorem not_firstFault_nil : ¬ FirstFault policy [] e := nofun

theorem firstFault_enter : FirstFault policy (.enter t scope :: ts) e ↔
    FirstFault policy (t.tasks policy scope ++ ts) e := by
  constructor
  · intro h
    cases h with
    | enter first => exact first
  · exact .enter

end

/-! ## Computations that fail as their tasks say -/

/-- The computation fails with the first fault of the tasks, and goes on with what comes after them if
they have none. -/
structure Follows {α : Type} (policy : ModulatorPolicy) (x : Lowering α) (ts : List Task) :
    Prop where
  first : ∀ rest e, FirstFault policy (ts ++ rest) e ↔
    x.result = .error e ∨ (∃ a, x.result = .ok a) ∧ FirstFault policy rest e
  clean : ∀ a, x.result = .ok a → ∀ e, ¬ Reaches policy ts e

namespace Follows

variable {α β : Type} {policy : ModulatorPolicy} {x : Lowering α} {ts us : List Task}

theorem of_ok {a : α} (h : x.result = .ok a) : Follows policy x [] := by
  refine ⟨fun rest e => ?_, fun _ _ _ => not_reaches_nil⟩
  simp [h]

theorem pure (a : α) : Follows policy (Pure.pure a : Lowering α) [] := of_ok rfl

theorem fail (c : Context) (fault : Fault) :
    Follows policy (c.fail fault : Lowering α) [.refuse ⟨c.step, fault⟩] := by
  refine ⟨fun rest e => ?_, nofun⟩
  constructor
  · intro h
    cases h with
    | refuse => exact .inl rfl
  · rintro (h | ⟨⟨a, ha⟩, -⟩)
    · obtain rfl := Except.error.inj h
      exact .refuse _ rest
    · cases ha

theorem bind {f : α → Lowering β} (hx : Follows policy x ts)
    (hf : ∀ a, x.result = .ok a → Follows policy (f a) us) :
    Follows policy (x >>= f) (ts ++ us) := by
  constructor
  · intro rest e
    rw [List.append_assoc, hx.first]
    cases hresult : x.result with
    | error e' => simp [Traced.bind_of_error hresult]
    | ok a => simp [Traced.bind_of_ok hresult, (hf a hresult).first]
  · intro b hb e he
    obtain ⟨a, ha, hfa⟩ := Traced.result_bind_eq_ok.1 hb
    rcases reaches_append.1 he with he | he
    · exact hx.clean a ha e he
    · exact (hf a ha).clean b hfa e he

theorem bind_of_ok {f : α → Lowering β} (hx : Follows policy x ts)
    (hf : ∀ a, ∃ b, (f a).result = .ok b) : Follows policy (x >>= f) ts := by
  have h : Follows policy (x >>= f) (ts ++ []) := hx.bind fun a _ => of_ok (hf a).choose_spec
  rwa [List.append_nil] at h

theorem traverse {f : α → Lowering β} {g : α → List Task} {as : List α}
    (h : ∀ a ∈ as, Follows policy (f a) (g a)) :
    Follows policy (Traced.traverse f as) (as.flatMap g) := by
  induction as with
  | nil => exact pure []
  | cons a as ih =>
    obtain ⟨hhead, htail⟩ := List.forall_mem_cons.1 h
    rw [Traced.traverse_cons, List.flatMap_cons]
    exact hhead.bind fun b _ => (ih htail).bind_of_ok fun bs => ⟨_, rfl⟩

theorem enter {t : Traversal} {scope : Position} (h : Follows policy x (t.tasks policy scope)) :
    Follows policy x [.enter t scope] := by
  refine ⟨fun rest e => ?_, fun a ha e he => h.clean a ha e (reaches_enter.1 he)⟩
  rw [List.cons_append, List.nil_append, firstFault_enter, h.first]

theorem error_iff (h : Follows policy x ts) (e : LoweringError) :
    x.result = .error e ↔ FirstFault policy ts e := by
  have hfirst := h.first [] e
  rw [List.append_nil] at hfirst
  rw [hfirst]
  simp [not_firstFault_nil]

end Follows

theorem FirstFault.reaches {policy : ModulatorPolicy} {ts : List Task} {e : LoweringError}
    (h : FirstFault policy ts e) : Reaches policy ts e := by
  induction h with
  | refuse e rest => exact .refuse List.mem_cons_self
  | @enter t scope rest e first ih =>
    rcases reaches_append.1 ih with ih | ih
    · exact .enter List.mem_cons_self ih
    · exact reaches_append.2 (.inr ih : Reaches policy [.enter t scope] e ∨ _)

/-- **A computation fails just if its tasks lead to a fault.** -/
theorem Follows.exists_error_iff {α : Type} {policy : ModulatorPolicy} {x : Lowering α}
    {ts : List Task} (h : Follows policy x ts) :
    (∃ e, x.result = .error e) ↔ ∃ e, Reaches policy ts e := by
  constructor
  · rintro ⟨e, he⟩
    exact ⟨e, ((h.error_iff e).1 he).reaches⟩
  · rintro ⟨e, he⟩
    cases hresult : x.result with
    | error e' => exact ⟨e', rfl⟩
    | ok a => exact absurd he (h.clean a hresult e)

/-! ## Modulators -/

namespace Modulators

/-- Modulators run out where the supply ends. -/
theorem at?_eq_none {bys : List Traversal} {policy : ModulatorPolicy} {i : Nat} :
    at? bys policy i = none ↔ ∃ n, supply? bys policy = some n ∧ n ≤ i := by
  match bys, policy with
  | [], _ => simp [at?, supply?]
  | [_], .broadcast => simp [at?, supply?]
  | [_], .strict => simp [at?, supply?, Nat.one_le_iff_ne_zero]
  | _ :: _ :: _, .broadcast => simp [at?, supply?]
  | _ :: _ :: _, .strict => simp [at?, supply?]
  | first :: rest, .cycle =>
    have hsome := isSome_at?_cycle (first :: rest) i
    have hsupply : supply? (first :: rest) .cycle = none := by
      cases rest <;> rfl
    rw [hsupply]
    constructor
    · intro h
      rw [h] at hsome
      cases hsome
    · rintro ⟨n, hn, -⟩
      cases hn

theorem lt_of_at?_eq_some {bys : List Traversal} {policy : ModulatorPolicy} {i n : Nat}
    {t : Traversal} (h : at? bys policy i = some t) (hsupply : supply? bys policy = some n) :
    i < n := by
  by_contra hle
  rw [at?_eq_none.2 ⟨n, hsupply, Nat.le_of_not_lt hle⟩] at h
  cases h

end Modulators

namespace WherePredicateStep

theorem length_slotsFrom_of_none {bys : List Traversal} {policy : ModulatorPolicy}
    (h : Modulators.supply? bys policy = none) (i number : Nat) (tags : List String) :
    (slotsFrom bys policy i number tags).length = tags.length := by
  induction tags generalizing i number with
  | nil => rfl
  | cons tag tags ih =>
    rw [slotsFrom]
    cases ht : Modulators.at? bys policy i with
    | none =>
      obtain ⟨n, hn, -⟩ := Modulators.at?_eq_none.1 ht
      rw [h] at hn
      cases hn
    | some t => exact congrArg Nat.succ (ih _ _)

theorem length_slotsFrom_of_some {bys : List Traversal} {policy : ModulatorPolicy} {n : Nat}
    (h : Modulators.supply? bys policy = some n) (i number : Nat) (tags : List String) :
    (slotsFrom bys policy i number tags).length = min (n - i) tags.length := by
  induction tags generalizing i number with
  | nil => exact (Nat.min_zero _).symm
  | cons tag tags ih =>
    rw [slotsFrom]
    cases ht : Modulators.at? bys policy i with
    | none =>
      obtain ⟨n', hn', hle⟩ := Modulators.at?_eq_none.1 ht
      obtain rfl : n = n' := Option.some.inj (h.symm.trans hn')
      rw [Nat.sub_eq_zero_of_le hle]
      exact (Nat.zero_min _).symm
    | some t =>
      have hlt : i < n := Modulators.lt_of_at?_eq_some ht h
      rw [List.length_cons, List.length_cons, ih]
      omega

end WherePredicateStep

/-! ## Rules -/

section Rules

variable {policy : ModulatorPolicy} {c : Context}

/-- Sub-traversals nested less deep than given fail as the tasks of their steps say. -/
def Builder.FollowsBelow (build : Builder) (policy : ModulatorPolicy) (depth : Nat) : Prop :=
  ∀ t p i, t.depth < depth → Follows policy (build t (Position.child p i))
    (t.tasks policy (p.child i))

theorem Context.follows_fill {s : Slot}
    (h : s.expr? = none → Follows policy (c.build s.traversal (c.step.position.child s.number))
      (s.traversal.tasks policy (c.step.position.child s.number))) :
    Follows policy (c.fill s) (s.tasks c.step) := by
  unfold Slot.tasks
  by_cases hsize : s.extraction.size = 1
  · rw [if_neg (not_not_intro hsize)]
    cases he : s.expr? with
    | some e =>
      rw [fill_of_expr? he, if_neg (Option.some_ne_none e)]
      exact .pure _
    | none =>
      rw [fill_of_none hsize he, if_pos rfl]
      have hemit : Follows policy (Traced.emit [.subquery c.step (s.column c.step.position)]) [] :=
        .of_ok rfl
      exact hemit.bind fun _ _ => (h he).enter.bind_of_ok fun plan => ⟨_, rfl⟩
  · rw [fill_of_size_ne hsize, if_pos hsize]
    exact .fail c _

theorem Traversal.follows_filterOperator {t : Traversal} (filter : String → String)
    (join : JoinKind) (h : Follows policy (c.build t (c.step.position.child 0))
      (t.tasks policy (c.step.position.child 0))) :
    Follows policy (t.filterOperator c filter join)
      (Slot.tasks c.step ⟨"", t, true, .subquery, 0⟩) := by
  unfold filterOperator Slot.tasks Slot.expr?
  simp only [Slot.extraction, if_true, Slot.traversal, rootedAt_empty]
  by_cases hsize : t.extract.size = 1
  · rw [Context.one_of_size hsize, pure_bind, if_neg (not_not_intro hsize)]
    cases t.extract.single? with
    | some e =>
      rw [if_neg (Option.some_ne_none e)]
      exact .pure _
    | none =>
      rw [if_pos rfl]
      have hemit : Follows policy (Traced.emit [.existence c.step join]) [] := .of_ok rfl
      exact hemit.bind fun _ _ => h.enter.bind_of_ok fun plan => ⟨_, rfl⟩
  · rw [Context.one_of_size_ne hsize, Context.fail_bind, if_pos hsize]
    exact .fail c _

namespace GroupStep

theorem follows_aggregate (value : Traversal) (a : Alias) :
    Follows policy (aggregate c value a) (valueTasks c.step value) := by
  obtain ⟨kind, source, haggregate⟩ := aggregate_eq value
  rw [haggregate, valueTasks]
  cases valueFault? value with
  | some fault => exact .fail c fault
  | none => exact .pure _

end GroupStep

namespace ModulatedStep

/-- The operator of a step fails as the tasks after its slots say. -/
theorem follows_terminal {m : ModulatedStep} {es : List String} (hfault : m.fault? = none)
    (hes : es.length = (m.slots policy).length) (hbuild : c.build.FollowsBelow policy m.depth) :
    Follows policy (m.terminal c es) (m.terminalTasks policy c.step) := by
  cases m with
  | select s => exact .pure _
  | dedup s => exact .pure _
  | order s => exact .pure _
  | sample s =>
    rw [fault?] at hfault
    rw [terminal]
    cases hamount : SampleAmount.ofNumber? s.amount with
    | none => simp [hamount] at hfault
    | some amount => exact .pure _
  | group s =>
    have hvalues : Follows policy
        (Traced.traverse (fun x => GroupStep.aggregate c x.1 (c.column .groupValue "" x.2))
          s.valueTraversals.zipIdx)
        (s.valueTraversals.zipIdx.flatMap fun x => GroupStep.valueTasks c.step x.1) :=
      .traverse fun x _ => GroupStep.follows_aggregate _ _
    rw [← List.flatMap_map Prod.fst (GroupStep.valueTasks c.step), List.zipIdx_map_fst] at hvalues
    exact hvalues.bind_of_ok fun values => ⟨_, rfl⟩
  | wherePredicate s =>
    rw [slots, WherePredicateStep.slots] at hes
    rw [terminal, terminalTasks]
    cases hsupply : Modulators.supply? s.bys policy with
    | none =>
      rw [WherePredicateStep.length_slotsFrom_of_none hsupply, List.length_cons] at hes
      rw [if_neg (by omega)]
      exact .pure _
    | some n =>
      rw [WherePredicateStep.length_slotsFrom_of_some hsupply, List.length_cons] at hes
      dsimp only
      split
      · rename_i hshort
        rw [if_pos (by omega)]
        obtain rfl : es.length = n := by omega
        exact .fail c _
      · rw [if_neg (by omega)]
        exact .pure _
  | whereTraversal t => exact t.follows_filterOperator _ _ (hbuild t _ 0 (Nat.lt_succ_self _))
  | not t => exact t.follows_filterOperator _ _ (hbuild t _ 0 (Nat.lt_succ_self _))

/-- **A rule fails as the tasks of its step say.** -/
theorem follows_lowerIn {m : ModulatedStep}
    (hbuild : c.build.FollowsBelow c.config.policy m.depth) :
    Follows c.config.policy (m.lowerIn c) (m.tasks c.config.policy c.step) := by
  rw [lowerIn_eq]
  unfold lowerParts tasks
  cases hfault : m.fault? with
  | some fault => exact .fail c fault
  | none =>
    have hfill : ∀ s ∈ m.slots c.config.policy,
        Follows c.config.policy (c.fill s) (s.tasks c.step) := by
      intro s hs
      exact Context.follows_fill fun hnone => hbuild _ _ _ (depth_of_mem_slots hs hnone)
    refine (Follows.traverse hfill).bind fun resolved hresolved => ?_
    refine Follows.bind_of_ok (follows_terminal hfault ?_ hbuild) fun o => ⟨_, rfl⟩
    rw [List.length_map, Traced.length_of_traverse hresolved]

end ModulatedStep

/-! ## Steps and traversals -/

theorem ElementaryStep.follows_lower (s : ElementaryStep) :
    Follows policy ((StepKind.elementary s).lowerIn c) (Task.ofFault? c.step s.fault?) := by
  rw [StepKind.lowerIn, s.lower_eq]
  cases s.fault? with
  | none => exact .pure _
  | some fault => exact .fail c fault

theorem Step.follows_lower {build : Builder} {config : Config} {s : Step} (position : Position)
    (hbuild : build.FollowsBelow config.policy s.depth) :
    Follows config.policy (s.lower build config position) (s.tasks config.policy position) := by
  obtain ⟨kind, labels⟩ := s
  have hkind : Follows config.policy (kind.lowerIn ⟨build, config, ⟨kind.name, position⟩⟩)
      (Step.tasks config.policy ⟨kind, labels⟩ position) := by
    cases kind with
    | modulated m =>
      exact ModulatedStep.follows_lowerIn (c := ⟨build, config, ⟨m.name, position⟩⟩) hbuild
    | elementary s => exact s.follows_lower
  exact hkind.bind_of_ok fun ops => ⟨_, rfl⟩

theorem Builder.follows_ofSteps {build : Builder} {config : Config} {t : Traversal}
    (hbuild : build.FollowsBelow config.policy t.depth) (scope : Position) :
    Follows config.policy (ofSteps build config t scope) (t.tasks config.policy scope) := by
  have hsteps : ∀ x ∈ t.steps.zipIdx, Follows config.policy
      (Step.lower build config x.1 (scope.child x.2))
      (x.1.tasks config.policy (scope.child x.2)) := by
    intro x hx
    refine Step.follows_lower _ fun t' p i ht' => hbuild t' p i ?_
    have hdepth := depth_le_stepsDepth (List.fst_mem_of_mem_zipIdx hx)
    rw [t.depth_eq]
    omega
  exact (Follows.traverse hsteps).bind_of_ok fun parts => ⟨_, rfl⟩

namespace Traversal

/-- **A traversal fails as the tasks of its steps say.** -/
theorem follows_buildInOrder (config : Config) (t : Traversal) (scope : Position) :
    Follows config.policy (t.buildInOrder config scope) (t.tasks config.policy scope) := by
  induction hn : t.depth using Nat.strong_induction_on generalizing t scope with
  | _ n ih =>
    rw [buildInOrder_eq]
    refine Builder.follows_ofSteps (fun t' p i ht' => ?_) scope
    have hchild : t'.build config (p.child i) = t'.buildInOrder config (p.child i) :=
      build_child config (Nat.le_refl _) p i
    rw [hchild]
    exact ih _ (hn ▸ ht') t' _ rfl

/-- **When lowering fails, and how.** Under a configuration that lowers the steps one after the other,
lowering fails just if some step that is looked at has a fault, and then with the first fault. The
failure names the step and its position. It breaks the structure of a query, unless a group value does
not end in an aggregate or has a source that is not pure: those are unsupported. -/
theorem build_eq_error {config : Config} {t : Traversal} {scope : Position}
    (sequential : (config.parallel && scope.isRoot) = false) :
    ((∃ e, (t.build config scope).result = .error e) ↔
        ∃ e, Reaches config.policy (t.tasks config.policy scope) e) ∧
      ∀ e, ((t.build config scope).result = .error e ↔
          FirstFault config.policy (t.tasks config.policy scope) e) ∧
        ((∃ name, e.fault = .notAnAggregate name) ∨ e.fault = .impureGroupSource → e.report =
          .unsupported (e.step.name ++ "@" ++ e.step.position.text) e.fault.message) ∧
        ((∀ name, e.fault ≠ .notAnAggregate name) → e.fault ≠ .impureGroupSource → e.report =
          .invalidStructure (e.step.name ++ "@" ++ e.step.position.text) e.fault.message) := by
  have hfollows := follows_buildInOrder config t scope
  rw [build_of_sequential sequential]
  refine ⟨hfollows.exists_error_iff, fun e => ⟨hfollows.error_iff e, ?_, ?_⟩⟩
  · intro hfault
    have hunsupported : e.fault.isUnsupported = true := by
      rcases hfault with ⟨name, hfault⟩ | hfault <;> rw [hfault] <;> rfl
    exact if_pos hunsupported
  · intro haggregate hsource
    refine if_neg fun hunsupported => ?_
    cases hfault : e.fault with
    | notAnAggregate name => exact haggregate name hfault
    | impureGroupSource => exact hsource hfault
    | _ => simp [hfault, Fault.isUnsupported] at hunsupported

/-- Sorts by a subquery whose `where` has a modulator for one of its two operands. -/
def orderByMatches : Traversal :=
  let compare : ModulatedStep :=
    .wherePredicate ⟨some "a", .compareTo .eq .null, ["b"], [identity.values "age"]⟩
  identity.modulated (.order ⟨[⟨(identity.outgoing []).modulated compare, .ascending⟩]⟩)

theorem build_eq_error_orderByMatches :
    let e : LoweringError := ⟨⟨"where", ⟨[0, 0, 1]⟩⟩, .modulatorsExhausted 2⟩
    FirstFault .strict (orderByMatches.tasks .strict .root) e ∧
      e.report = .invalidStructure "where@0.0.1" "where() ran out of by() modulators after 2" := by
  intro e
  obtain ⟨-, herror⟩ := @build_eq_error ⟨.strict, 0, false⟩ orderByMatches .root rfl
  obtain ⟨hfirst, -, hreport⟩ := herror e
  have hfails : (orderByMatches.build ⟨.strict, 0, false⟩ .root).result = .error e := by cbv
  refine ⟨hfirst.1 hfails, hreport (fun name hfault => ?_) fun hfault => ?_⟩ <;> cases hfault

/-- Counts the neighbours of a group. -/
def countNeighbours : Traversal :=
  identity.modulated (.group ⟨[], [(identity.outgoing []).count], false⟩)

/-- A source that is not pure is unsupported, though the value ends in an aggregate. -/
theorem impure_source_unsupported :
    (countNeighbours.build .standard .root).result.mapError LoweringError.report =
        .error (.unsupported "group@0" "segment apply is unsupported") ∧
      ∃ steps r labels, (identity.outgoing []).count.steps =
        steps ++ [⟨.elementary (.reduce r), labels⟩] := by
  have hfails : (countNeighbours.build .standard .root).result =
      .error ⟨⟨"group", ⟨[0]⟩⟩, .impureGroupSource⟩ := by cbv
  rw [hfails]
  exact ⟨rfl, (identity.outgoing []).steps, .count, [], rfl⟩

end Traversal
end Rules

end TraversalPlan

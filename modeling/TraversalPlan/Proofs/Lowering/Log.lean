import TraversalPlan.Proofs.Lowering.Depth

/-!
# The log of lowering

A step that is lowered logs its subqueries one after the other, each with an announcement before what
the subquery logs by itself, and then one event for each of its operators. So the log of a plan
mirrors the plan (**`Traversal.logs_of_build`**). A step that fails has logged nothing but its
subqueries up to there (**`Step.stopped_of_build`**).

* `Traced.log_traverse_of_ok`, `Traced.exists_of_traverse_eq_error`: what a traversal of a list logs.
* `ModulatedStep.subqueries`: the slots of a step that need a subquery.
* `Mirrors`: the log of subqueries matches the operators they give.
* `Logged`: a computation logs its subqueries, and nothing else. Sequences and lists keep to this.
-/

namespace TraversalPlan

/-! ## Sequences -/

namespace Traced

variable {ε α β : Type} {f : α → Traced ε β} {as : List α}

theorem log_traverse_of_ok {bs : List β} (h : (traverse f as).result = .ok bs) :
    (traverse f as).log = as.flatMap fun a => (f a).log := by
  induction as generalizing bs with
  | nil => rfl
  | cons a as ih =>
    rw [traverse_cons] at h ⊢
    obtain ⟨b, hb, h⟩ := result_bind_eq_ok.1 h
    obtain ⟨rest, hrest, -⟩ := result_bind_eq_ok.1 h
    rw [bind_of_ok hb, bind_of_ok hrest, ih hrest, List.flatMap_cons]
    exact congrArg _ (List.append_nil _)

theorem exists_of_traverse_eq_error {e : ε} (h : (traverse f as).result = .error e) :
    ∃ before a after bs, as = before ++ a :: after ∧
      List.Forall₂ (fun a b => (f a).result = .ok b) before bs ∧ (f a).result = .error e ∧
      (traverse f as).log = (before.flatMap fun a => (f a).log) ++ (f a).log := by
  induction as with
  | nil => cases h
  | cons a as ih =>
    rw [traverse_cons] at h ⊢
    rcases result_bind_eq_error.1 h with ha | ⟨b, hb, h⟩
    · exact ⟨[], a, as, [], rfl, .nil, ha, by rw [bind_of_error ha]; rfl⟩
    rcases result_bind_eq_error.1 h with hrest | ⟨_, -, h⟩
    · obtain ⟨before, a', after, bs, rfl, hbefore, ha', hlog⟩ := ih hrest
      refine ⟨a :: before, a', after, b :: bs, rfl, .cons hb hbefore, ha', ?_⟩
      rw [bind_of_ok hb, bind_of_error hrest, hlog, List.flatMap_cons, List.append_assoc]
    · cases h

end Traced

/-! ## The subqueries of a step -/

namespace ModulatedStep

/-- The slot for the traversal of a filter. -/
def filterSlots : ModulatedStep → List Slot
  | whereTraversal t => [⟨"", t, true, .subquery, 0⟩]
  | not t => [⟨"", t, true, .subquery, 0⟩]
  | _ => []

/-- The slots that need a subquery, in order. -/
def subqueries (policy : ModulatorPolicy) (m : ModulatedStep) : List Slot :=
  (m.slots policy ++ m.filterSlots).filter fun s => s.expr?.isNone

end ModulatedStep

def Step.subqueries (policy : ModulatorPolicy) (s : Step) : List Slot :=
  match s.kind with
  | .elementary _ => []
  | .modulated m => m.subqueries policy

/-- The subquery in a slot of a step, as it is lowered by itself. -/
def Slot.lower (config : Config) (step : StepRef) (s : Slot) : Lowering Plan :=
  s.traversal.build config (step.position.child s.number)

/-- The event right before a subquery of a step. It names the alias that the result is bound to, or
how the result filters. -/
inductive Announces (step : StepRef) : JoinKind → Option Alias → Event → Prop
  | subquery (a : Alias) : Announces step .inner (some a) (.subquery step a)
  | existence {join : JoinKind} (filters : join ≠ .inner) :
    Announces step join none (.existence step join)

/-- The log of the subqueries in some slots matches the operators they give: for each `apply` in order
there is an announcement and right after it the log of the subquery. -/
inductive Mirrors (config : Config) (step : StepRef) :
    List Slot → List Operator → List Event → Prop
  | nil : Mirrors config step [] [] []
  | other {slots : List Slot} {o : Operator} {ops : List Operator} {log : List Event}
    (other : o.name ≠ "Apply") (rest : Mirrors config step slots ops log) :
    Mirrors config step slots (o :: ops) log
  | apply {s : Slot} {slots : List Slot} {plan : Plan} {join : JoinKind} {column : Option Alias}
    {ops : List Operator} {event : Event} {log : List Event}
    (announced : Announces step join column event)
    (lowered : (s.lower config step).result = .ok plan) (rest : Mirrors config step slots ops log) :
    Mirrors config step (s :: slots) (.apply plan.operators join column :: ops)
      (event :: ((s.lower config step).log ++ log))

/-- A step fails after some of its subqueries, for a fault of its own or inside the next subquery. -/
inductive Stopped (config : Config) (step : StepRef) (e : LoweringError) :
    List Slot → List Event → Prop
  | own {slots rest : List Slot} {ops : List Operator} {log : List Event}
    (finished : Mirrors config step slots ops log) (here : e.step = step) :
    Stopped config step e (slots ++ rest) log
  | within {s : Slot} {slots rest : List Slot} {ops : List Operator} {join : JoinKind}
    {column : Option Alias} {event : Event} {log : List Event}
    (finished : Mirrors config step slots ops log) (announced : Announces step join column event)
    (failed : (s.lower config step).result = .error e) :
    Stopped config step e (slots ++ s :: rest) (log ++ event :: (s.lower config step).log)

section

variable {config : Config} {step : StepRef} {e : LoweringError} {slots slots' : List Slot}
  {ops ops' : List Operator} {log log' : List Event}

theorem Mirrors.append (h : Mirrors config step slots ops log)
    (h' : Mirrors config step slots' ops' log') :
    Mirrors config step (slots ++ slots') (ops ++ ops') (log ++ log') := by
  induction h with
  | nil => exact h'
  | other other _ ih => exact ih.other other
  | apply announced lowered _ ih =>
    rw [List.cons_append, List.cons_append, List.cons_append, List.append_assoc]
    exact ih.apply announced lowered

theorem Mirrors.of_forall_ne (h : ∀ o ∈ ops, o.name ≠ "Apply") : Mirrors config step [] ops [] := by
  induction ops with
  | nil => exact .nil
  | cons o ops ih =>
    obtain ⟨ho, hops⟩ := List.forall_mem_cons.1 h
    exact (ih hops).other ho

theorem Stopped.append_right (h : Stopped config step e slots log) (rest : List Slot) :
    Stopped config step e (slots ++ rest) log := by
  cases h with
  | own finished here =>
    rw [List.append_assoc]
    exact .own finished here
  | within finished announced failed =>
    rw [List.append_assoc]
    exact .within finished announced failed

theorem Stopped.after (h : Mirrors config step slots ops log)
    (h' : Stopped config step e slots' log') :
    Stopped config step e (slots ++ slots') (log ++ log') := by
  cases h' with
  | own finished here =>
    rw [← List.append_assoc]
    exact .own (h.append finished) here
  | within finished announced failed =>
    rw [← List.append_assoc, ← List.append_assoc]
    exact .within (h.append finished) announced failed

end

/-! ## Computations that log their subqueries -/

/-- The computation of a step logs the subqueries in some slots, and nothing else. They give the
`apply` operators among those of its outcome. -/
structure Logged {α : Type} (config : Config) (step : StepRef) (x : Lowering α) (slots : List Slot)
    (ops : α → List Operator) : Prop where
  ok : ∀ a, x.result = .ok a → Mirrors config step slots (ops a) x.log
  error : ∀ e, x.result = .error e → Stopped config step e slots x.log

/-- The context of a step whose subqueries are lowered as by themselves. -/
abbrev Context.ofStep (config : Config) (step : StepRef) : Context :=
  ⟨fun t scope => t.build config scope, config, step⟩

section Rules

variable {config : Config} {step : StepRef}

namespace Logged

variable {α β γ : Type} {x : Lowering α} {slots slots' : List Slot} {ops : α → List Operator}

theorem pure {a : α} (h : Mirrors config step [] (ops a) []) :
    Logged config step (Pure.pure a) [] ops := by
  refine ⟨fun b hb => ?_, nofun⟩
  obtain rfl := Except.ok.inj hb
  exact h

theorem fail (fault : Fault) (slots : List Slot) :
    Logged config step ((Context.ofStep config step).fail fault) slots ops := by
  refine ⟨nofun, fun e he => ?_⟩
  have hown : Stopped config step e ([] ++ slots) [] :=
    .own .nil (congrArg LoweringError.step (Except.error.inj he)).symm
  exact hown

theorem seq {y : α → Lowering β} {h : α → β → γ} {ops' : β → List Operator}
    {ops'' : γ → List Operator} (hx : Logged config step x slots ops)
    (hy : ∀ a, x.result = .ok a → Logged config step (y a) slots' ops')
    (hops : ∀ a b, ops'' (h a b) = ops a ++ ops' b) :
    Logged config step (do let a ← x; let b ← y a; return h a b) (slots ++ slots') ops'' := by
  constructor
  · intro c hc
    obtain ⟨a, ha, hc⟩ := Traced.result_bind_eq_ok.1 hc
    obtain ⟨b, hb, hc⟩ := Traced.result_bind_eq_ok.1 hc
    obtain rfl : h a b = c := Except.ok.inj hc
    have hlog := (hx.ok a ha).append ((hy a ha).ok b hb)
    rw [Traced.bind_of_ok ha, Traced.bind_of_ok hb, hops]
    simpa using hlog
  · intro e he
    rcases Traced.result_bind_eq_error.1 he with he | ⟨a, ha, he⟩
    · rw [Traced.bind_of_error he]
      exact (hx.error e he).append_right _
    rcases Traced.result_bind_eq_error.1 he with he | ⟨b, -, he⟩
    · rw [Traced.bind_of_ok ha, Traced.bind_of_error he]
      exact .after (hx.ok a ha) ((hy a ha).error e he)
    · cases he

theorem map {h : α → β} {ops' : β → List Operator} (hx : Logged config step x slots ops)
    (hops : ∀ a log, Mirrors config step slots (ops a) log →
      Mirrors config step slots (ops' (h a)) log) :
    Logged config step (x >>= fun a => Pure.pure (h a)) slots ops' := by
  constructor
  · intro b hb
    obtain ⟨a, ha, hb⟩ := Traced.result_bind_eq_ok.1 hb
    obtain rfl : h a = b := Except.ok.inj hb
    rw [Traced.bind_of_ok ha]
    simpa using hops a _ (hx.ok a ha)
  · intro e he
    rcases Traced.result_bind_eq_error.1 he with he | ⟨a, -, he⟩
    · rw [Traced.bind_of_error he]
      exact hx.error e he
    · cases he

theorem traverse {f : γ → Lowering α} {g : γ → List Slot} {cs : List γ}
    (h : ∀ c ∈ cs, Logged config step (f c) (g c) ops) :
    Logged config step (Traced.traverse f cs) (cs.flatMap g) (List.flatMap ops) := by
  induction cs with
  | nil => exact pure .nil
  | cons c cs ih =>
    obtain ⟨hhead, htail⟩ := List.forall_mem_cons.1 h
    exact hhead.seq (fun _ _ => ih htail) fun _ _ => List.flatMap_cons

theorem enter {s : Slot} {join : JoinKind} {column : Option Alias} {event : Event} {h : Plan → α}
    (announced : Announces step join column event)
    (hops : ∀ plan, ops (h plan) = [.apply plan.operators join column]) :
    Logged config step (do
      Traced.emit [event]
      let plan ← s.lower config step
      return h plan) [s] ops := by
  rw [Traced.bind_of_ok (Traced.result_emit [event])]
  constructor
  · intro a ha
    obtain ⟨plan, hplan, ha⟩ := Traced.result_bind_eq_ok.1 ha
    obtain rfl : h plan = a := Except.ok.inj ha
    have hlog := Mirrors.nil.apply announced hplan
    rw [Traced.bind_of_ok hplan, hops]
    exact hlog
  · intro e he
    rcases Traced.result_bind_eq_error.1 he with he | ⟨plan, -, he⟩
    · have hwithin : Stopped config step e ([] ++ [s]) ([] ++ event :: (s.lower config step).log) :=
        .within .nil announced he
      rw [Traced.bind_of_error he]
      exact hwithin
    · cases he

end Logged

/-! ## Rules -/

theorem Context.logged_fill (s : Slot) :
    Logged config step ((Context.ofStep config step).fill s) ([s].filter fun s => s.expr?.isNone)
      fun r => r.subquery.toList := by
  by_cases hsize : s.extraction.size = 1
  · cases he : s.expr? with
    | some e =>
      rw [fill_of_expr? he, List.filter_cons_of_neg (by simp [he])]
      exact .pure .nil
    | none =>
      rw [fill_of_none hsize he, List.filter_cons_of_pos (by simp [he])]
      exact .enter (.subquery _) fun _ => rfl
  · rw [fill_of_size_ne hsize]
    exact .fail _ _

theorem Traversal.logged_filterOperator (t : Traversal) (filter : String → String)
    {join : JoinKind} (filters : join ≠ .inner) :
    Logged config step (t.filterOperator (Context.ofStep config step) filter join)
      (List.filter (fun s => s.expr?.isNone) [⟨"", t, true, .subquery, 0⟩]) fun o => [o] := by
  let s : Slot := ⟨"", t, true, .subquery, 0⟩
  unfold filterOperator
  by_cases hsize : t.extract.size = 1
  · rw [Context.one_of_size hsize, pure_bind]
    cases he : t.extract.single? with
    | some e =>
      rw [Slot.filter_current_of_some 0 he]
      exact .pure (.of_forall_ne (by simp [Operator.name]))
    | none =>
      rw [Slot.filter_current_of_none 0 he]
      have henter : Logged config step (do
          Traced.emit [.existence step join]
          let plan ← s.lower config step
          return .apply plan.operators join none) [s] fun o => [o] :=
        .enter (.existence filters) fun _ => rfl
      rwa [Slot.lower, Slot.traversal_current] at henter
  · rw [Context.one_of_size_ne hsize]
    exact .fail _ _

theorem GroupStep.logged_aggregate (value : Traversal) (a : Alias) :
    Logged config step (aggregate (Context.ofStep config step) value a) [] fun _ => [] := by
  obtain ⟨kind, source, haggregate⟩ := aggregate_eq value
  rw [haggregate]
  cases valueFault? value with
  | some fault => exact .fail _ _
  | none => exact .pure .nil

namespace ModulatedStep

/-- The operator of a step logs a subquery only for a filter by a traversal. -/
theorem logged_terminal (m : ModulatedStep) (es : List String) :
    Logged config step (m.terminal (Context.ofStep config step) es)
      (m.filterSlots.filter fun s => s.expr?.isNone) fun o => [o] := by
  cases m with
  | select s => exact .pure (.of_forall_ne (by simp [Operator.name]))
  | dedup s => exact .pure (.of_forall_ne (by simp [Operator.name]))
  | order s => exact .pure (.of_forall_ne (by simp [Operator.name]))
  | sample s =>
    rw [terminal]
    split
    · exact .fail _ _
    · exact .pure (.of_forall_ne (by simp [Operator.name]))
  | group s =>
    let c := Context.ofStep config step
    have hvalues : Logged config step (Traced.traverse
        (fun x => GroupStep.aggregate c x.1 (c.column .groupValue "" x.2))
        s.valueTraversals.zipIdx) (s.valueTraversals.zipIdx.flatMap fun _ => [])
        (List.flatMap fun _ => []) := .traverse fun x _ => GroupStep.logged_aggregate x.1 _
    rw [List.flatMap_eq_nil_iff.2 fun _ _ => rfl] at hvalues
    refine hvalues.map fun values log h => ?_
    rw [List.flatMap_eq_nil_iff.2 fun _ _ => rfl] at h
    exact h.other (by simp [Operator.name])
  | wherePredicate s =>
    rw [terminal]
    split
    · exact .fail _ _
    · exact .pure (.of_forall_ne (by simp [Operator.name]))
  | whereTraversal t => exact t.logged_filterOperator _ (by decide)
  | not t => exact t.logged_filterOperator _ (by decide)

/-- **A rule logs its subqueries**, in the order of their slots. -/
theorem logged_lowerIn (m : ModulatedStep) :
    Logged config step (m.lowerIn (Context.ofStep config step)) (m.subqueries config.policy)
      fun ops => ops := by
  rw [lowerIn_eq, lowerParts]
  cases m.fault? with
  | some fault => exact .fail _ _
  | none =>
    have hfill : Logged config step
        (Traced.traverse (Context.ofStep config step).fill (m.slots config.policy))
        ((m.slots config.policy).flatMap fun s => [s].filter fun s => s.expr?.isNone)
        (List.flatMap fun r => r.subquery.toList) := .traverse fun s _ => Context.logged_fill s
    have hslots : (m.slots config.policy).flatMap (fun s => [s].filter fun s => s.expr?.isNone) =
        (m.slots config.policy).filter fun s => s.expr?.isNone := by
      rw [← List.filter_flatMap, List.flatMap_singleton']
    rw [subqueries, List.filter_append, ← hslots]
    refine hfill.seq (fun resolved _ => m.logged_terminal _) fun resolved o => ?_
    rw [Resolved.operators, List.filterMap_eq_flatMap_toList]

end ModulatedStep

/-! ## Steps and traversals -/

theorem ElementaryStep.name_ne_of_lower {s : ElementaryStep} {position : Position}
    {ops : List Operator} (h : s.lower position = .ok ops) : ∀ o ∈ ops, o.name ≠ "Apply" := by
  obtain ⟨-, rfl⟩ := lower_eq_ok.1 h
  cases s with
  | hasLabel labels => cases labels <;> simp [operators, Operator.name]
  | _ => simp [operators, Operator.name]

theorem StepKind.logged_lowerIn (kind : StepKind) (labels : List String) :
    Logged config step (kind.lowerIn (Context.ofStep config step))
      (Step.subqueries config.policy ⟨kind, labels⟩) fun ops => ops := by
  cases kind with
  | modulated m => exact m.logged_lowerIn
  | elementary s =>
    rw [lowerIn]
    cases hs : s.lower step.position with
    | ok ops => exact .pure (.of_forall_ne (s.name_ne_of_lower hs))
    | error fault => exact .fail _ _

end Rules

/-- A step at a position, with its subqueries lowered as by themselves. -/
def Step.build (config : Config) (s : Step) (position : Position) : Lowering (List Operator) :=
  s.lower (fun t scope => t.build config scope) config position

/-- The log of a step that is lowered to some operators: its subqueries, and then one event for each
operator in order. The last of the operators names the result if the step has a label. -/
structure Step.Logs (config : Config) (s : Step) (position : Position) (ops : List Operator)
    (log : List Event) : Prop where
  lowered : s.build config position = ⟨log, .ok ops⟩
  names : s.binding <:+ ops
  mirrors : ∃ subqueries,
    Mirrors config ⟨s.name, position⟩ (s.subqueries config.policy) ops subqueries ∧
      log = subqueries ++ ops.map fun o => .emitted ⟨s.name, position⟩ o.name

/-- Steps with their indexes are lowered to parts of a plan, each with its log. -/
def StepsLog (config : Config) (scope : Position) (steps : List (Step × Nat))
    (parts : List (List Operator × List Event)) : Prop :=
  List.Forall₂ (fun x part => x.1.Logs config (scope.child x.2) part.1 part.2) steps parts

section Traversals

variable {config : Config} {scope : Position}

/-- **A step that succeeds logs its subqueries and its operators.** -/
theorem Step.logs_of_build {s : Step} {position : Position} {ops : List Operator}
    (h : (s.build config position).result = .ok ops) :
    s.Logs config position ops (s.build config position).log := by
  obtain ⟨kind, labels⟩ := s
  let step : StepRef := ⟨kind.name, position⟩
  obtain ⟨own, hown, hops⟩ := Step.lower_eq_ok.1 h
  refine ⟨congrArg (Traced.mk _) h, hops ▸ List.suffix_append _ _, ?_⟩
  have hkind : Logged config step (kind.lowerIn (Context.ofStep config step)) _ _ :=
    kind.logged_lowerIn labels
  have hmirrors := hkind.ok own hown
  have hbinding : ∀ o ∈ Step.binding ⟨kind, labels⟩, o.name ≠ "Apply" := by
    unfold binding
    split <;> simp [Operator.name]
  have hall := hmirrors.append (.of_forall_ne hbinding)
  rw [← hops, List.append_nil, List.append_nil] at hall
  refine ⟨_, hall, ?_⟩
  unfold build Step.lower
  rw [Traced.bind_of_ok hown, hops]
  exact congrArg _ (List.append_nil _)

/-- **A step that fails has logged only its subqueries** as far as it came. -/
theorem Step.stopped_of_build {s : Step} {position : Position} {e : LoweringError}
    (h : (s.build config position).result = .error e) :
    Stopped config ⟨s.name, position⟩ e (s.subqueries config.policy)
      (s.build config position).log := by
  obtain ⟨kind, labels⟩ := s
  rcases Traced.result_bind_eq_error.1 h with hown | ⟨own, -, h⟩
  · have hkind : Logged config ⟨kind.name, position⟩ _ _ _ := kind.logged_lowerIn labels
    have hstopped := hkind.error e hown
    unfold build Step.lower
    rw [Traced.bind_of_error hown]
    exact hstopped
  · cases h

theorem exists_stepsLog {steps : List (Step × Nat)} {results : List (List Operator)}
    (h : List.Forall₂ (fun x ops => (x.1.build config (scope.child x.2)).result = .ok ops) steps
      results) :
    ∃ parts, StepsLog config scope steps parts ∧ results.flatten = parts.flatMap Prod.fst ∧
      (steps.flatMap fun x => (x.1.build config (scope.child x.2)).log) =
        parts.flatMap Prod.snd := by
  induction h with
  | nil => exact ⟨[], .nil, rfl, rfl⟩
  | @cons x ops steps results hx _ ih =>
    obtain ⟨parts, hparts, hops, hlog⟩ := ih
    refine ⟨(ops, (x.1.build config (scope.child x.2)).log) :: parts, ?_, ?_, ?_⟩
    · exact .cons (Step.logs_of_build hx) hparts
    · rw [List.flatten_cons, List.flatMap_cons, hops]
    · rw [List.flatMap_cons, List.flatMap_cons, hlog]

variable {t : Traversal}

theorem Traversal.build_eq_ofSteps (sequential : (config.parallel && scope.isRoot) = false) :
    t.build config scope = do
      let parts ← Traced.traverse (fun x => x.1.build config (scope.child x.2)) t.steps.zipIdx
      return ⟨parts.flatten⟩ := by
  rw [build_of_sequential sequential, buildInOrder_eq]
  rfl

/-- **The log of a plan is the logs of its steps.** -/
theorem Traversal.logs_of_build (sequential : (config.parallel && scope.isRoot) = false)
    {plan : Plan} (h : (t.build config scope).result = .ok plan) :
    ∃ parts, StepsLog config scope t.steps.zipIdx parts ∧
      plan.operators = parts.flatMap Prod.fst ∧
      (t.build config scope).log = parts.flatMap Prod.snd := by
  rw [build_eq_ofSteps sequential] at h ⊢
  obtain ⟨results, hresults, hplan⟩ := Traced.result_bind_eq_ok.1 h
  obtain rfl := Except.ok.inj hplan
  obtain ⟨parts, hparts, hops, hlog⟩ := exists_stepsLog (Traced.traverse_eq_ok.1 hresults)
  refine ⟨parts, hparts, hops, ?_⟩
  rw [Traced.bind_of_ok hresults, Traced.log_traverse_of_ok hresults, hlog]
  exact List.append_nil _

/-- **A traversal that fails has logged the steps before**, and the failing step up to there. -/
theorem Traversal.stopped_of_build (sequential : (config.parallel && scope.isRoot) = false)
    {e : LoweringError} (h : (t.build config scope).result = .error e) :
    ∃ before s i after parts log, t.steps.zipIdx = before ++ (s, i) :: after ∧
      StepsLog config scope before parts ∧
      Stopped config ⟨s.name, scope.child i⟩ e (s.subqueries config.policy) log ∧
      (t.build config scope).log = parts.flatMap Prod.snd ++ log := by
  rw [build_eq_ofSteps sequential] at h ⊢
  rcases Traced.result_bind_eq_error.1 h with h | ⟨_, -, h⟩
  · obtain ⟨before, ⟨s, i⟩, after, results, hsteps, hbefore, hs, hlog⟩ :=
      Traced.exists_of_traverse_eq_error h
    obtain ⟨parts, hparts, -, hearlier⟩ := exists_stepsLog hbefore
    refine ⟨before, s, i, after, parts, _, hsteps, hparts, Step.stopped_of_build hs, ?_⟩
    rw [Traced.bind_of_error h, hlog, hearlier]
  · cases h

end Traversals

end TraversalPlan

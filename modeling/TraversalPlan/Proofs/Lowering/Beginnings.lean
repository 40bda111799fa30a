import TraversalPlan.Proofs.Lowering.Log
import TraversalPlan.Proofs.Lowering.Policy

/-!
# Where steps begin

Which steps are lowered in a run does not show in its log: a step may log nothing, and one that fails
may be named by its failure only. Therefore lowering is run once more with a note in the log where a
step begins. Without the notes the run is the one it stands for (**`Traversal.unnoted_buildNoted`**),
so nothing else is observed than what is lowered anyway. Every step that an event or the failure names
has begun (**`Traversal.accounts_buildNoted`**).

* `Event.begun`: the note.
* `Step.lowerNoted`, `Builder.noted`, `Traversal.buildNoted`: the run with notes.
* `Traced.unnoted`: a run without its notes. It goes through sequences, lists and rules.
* `Accounts`: what a computation names has begun in it, or is known before.
-/

namespace TraversalPlan

/-! ## Notes -/

namespace Event

/-- The note that a step begins: an operator without a name. No operator is without one. -/
def begun (step : StepRef) : Event := emitted step ""

/-- The step that begins, if the event is a note. -/
def begun? : Event → Option StepRef
  | emitted step operator => if operator = "" then some step else none
  | _ => none

/-- The step that the event names. -/
def step? : Event → Option StepRef
  | subquery step _ => some step
  | existence step _ => some step
  | emitted step _ => some step
  | unsetElement => none

@[simp]
theorem begun?_begun (step : StepRef) : (begun step).begun? = some step := rfl

@[simp]
theorem step?_begun (step : StepRef) : (begun step).step? = some step := rfl

end Event

theorem Operator.name_ne_empty (o : Operator) : o.name ≠ "" := by cases o <;> simp [name]

@[simp]
theorem Event.begun?_emitted (step : StepRef) (o : Operator) : (emitted step o.name).begun? = none :=
  if_neg o.name_ne_empty

/-! ## The run with notes -/

/-- Lowers a step with a note where it begins. -/
def Step.lowerNoted (build : Builder) (config : Config) (s : Step) (position : Position) :
    Lowering (List Operator) := do
  Traced.emit [.begun ⟨s.name, position⟩]
  s.lower build config position

namespace Builder

/-- Lowers the steps of a traversal one after the other, each with a note. -/
def notedSteps (build : Builder) (config : Config) : Builder := fun t scope => do
  let parts ← Traced.traverse (fun (s, i) => Step.lowerNoted build config s (scope.child i))
    t.steps.zipIdx
  return ⟨parts.flatten⟩

/-- Lowers with notes, up to a number of traversals inside one another. -/
def noted (config : Config) : Nat → Builder
  | 0 => unused
  | count + 1 => notedSteps (noted config count) config

end Builder

namespace Traversal

/-- What becomes of the steps, each lowered by itself with notes. -/
def notedOutcomes (config : Config) (t : Traversal) (scope : Position) :
    List (Lowering (List Operator)) :=
  t.steps.zipIdx.map fun x =>
    Step.lowerNoted (Builder.noted config (t.depth + 1)) config x.1 (scope.child x.2)

/-- Lowers a traversal with notes. Steps that are lowered at the same time end in the order of the
given indexes. -/
def buildNoted (order : List Nat) (config : Config) (t : Traversal) (scope : Position) :
    Lowering Plan :=
  if config.parallel && scope.isRoot then
    let outcomes := t.notedOutcomes config scope
    ⟨outcomes.flatMap Traced.log,
      (gather order (outcomes.map Traced.result)).map fun parts => ⟨parts.flatten⟩⟩
  else Builder.noted config (t.depth + 1) t scope

end Traversal

/-! ## The run without its notes -/

namespace Traced

variable {ε α β : Type}

/-- The computation without the notes in its log. -/
def unnoted (x : Traced ε α) : Traced ε α :=
  ⟨x.log.filter fun event => event.begun?.isNone, x.result⟩

@[simp]
theorem result_unnoted (x : Traced ε α) : x.unnoted.result = x.result := rfl

@[simp]
theorem unnoted_pure (a : α) : (pure a : Traced ε α).unnoted = pure a := rfl

@[simp]
theorem unnoted_fail (e : ε) : (fail e : Traced ε α).unnoted = fail e := rfl

theorem unnoted_emit (events : List Event) : (emit events : Traced ε Unit).unnoted =
    emit (events.filter fun event => event.begun?.isNone) := rfl

@[simp]
theorem unnoted_bind (x : Traced ε α) (f : α → Traced ε β) :
    (x >>= f).unnoted = x.unnoted >>= fun a => (f a).unnoted := by
  obtain ⟨log, e | a⟩ := x
  · rfl
  · exact Traced.ext (List.filter_append log (f a).log) rfl

theorem unnoted_traverse (f : α → Traced ε β) (as : List α) :
    (traverse f as).unnoted = traverse (fun a => (f a).unnoted) as := by
  induction as with
  | nil => rfl
  | cons a as ih => simp only [traverse_cons, unnoted_bind, unnoted_pure, ih]

end Traced

/-- The builder without its notes. -/
def Builder.unnoted (build : Builder) : Builder := fun t scope => (build t scope).unnoted

namespace Context

/-- The context whose subqueries are lowered without notes. -/
def unnoted (c : Context) : Context := ⟨c.build.unnoted, c.config, c.step⟩

variable (c : Context)

@[simp]
theorem unnoted_one (x : Extraction) : (c.one x).unnoted = c.unnoted.one x := by
  unfold one
  split <;> rfl

theorem unnoted_orSubquery (e : Option String) (t : Traversal) (a : Alias) (i : Nat) :
    (c.orSubquery e t a i).unnoted = c.unnoted.orSubquery e t a i := by
  cases e with
  | some e => rfl
  | none =>
    simp only [orSubquery, materialize, Traced.unnoted_bind, Traced.unnoted_pure]
    rfl

theorem unnoted_fill (s : Slot) : (c.fill s).unnoted = c.unnoted.fill s := by
  simp only [fill, Traced.unnoted_bind, unnoted_one, unnoted_orSubquery]
  rfl

end Context

section Rules

variable (c : Context)

theorem Traversal.unnoted_filterOperator (t : Traversal) (filter : String → String)
    (join : JoinKind) :
    (t.filterOperator c filter join).unnoted = t.filterOperator c.unnoted filter join := by
  simp only [filterOperator, Traced.unnoted_bind, Context.unnoted_one]
  refine congrArg _ (funext fun e => ?_)
  cases e with
  | some e => rfl
  | none =>
    simp only [Context.existence, Traced.unnoted_bind, Traced.unnoted_pure]
    rfl

theorem GroupStep.unnoted_aggregate (value : Traversal) (a : Alias) :
    (aggregate c value a).unnoted = aggregate c.unnoted value a := by
  obtain ⟨kind, source, haggregate⟩ := aggregate_eq value
  rw [haggregate, haggregate]
  cases valueFault? value <;> rfl

namespace ModulatedStep

theorem unnoted_terminal (m : ModulatedStep) (es : List String) :
    (m.terminal c es).unnoted = m.terminal c.unnoted es := by
  cases m with
  | sample s =>
    unfold terminal
    dsimp only
    cases SampleAmount.ofNumber? s.amount <;> rfl
  | group s =>
    simp only [terminal, Traced.unnoted_bind, Traced.unnoted_traverse, GroupStep.unnoted_aggregate]
    rfl
  | wherePredicate s =>
    unfold terminal
    dsimp only
    split <;> rfl
  | whereTraversal t => exact t.unnoted_filterOperator c _ _
  | not t => exact t.unnoted_filterOperator c _ _
  | _ => rfl

/-- **Each rule goes without the notes of its subqueries as with them.** -/
theorem unnoted_lowerIn (m : ModulatedStep) : (m.lowerIn c).unnoted = m.lowerIn c.unnoted := by
  rw [lowerIn_eq, lowerIn_eq, lowerParts, lowerParts]
  cases m.fault? with
  | some fault => rfl
  | none =>
    simp only [Traced.unnoted_bind, Traced.unnoted_traverse, Context.unnoted_fill, unnoted_terminal]
    rfl

end ModulatedStep

theorem StepKind.unnoted_lowerIn (k : StepKind) : (k.lowerIn c).unnoted = k.lowerIn c.unnoted := by
  cases k with
  | modulated m => exact m.unnoted_lowerIn c
  | elementary s =>
    unfold lowerIn
    dsimp only [Context.unnoted]
    cases s.lower c.step.position <;> rfl

end Rules

section Steps

variable {build : Builder} {config : Config}

theorem Step.unnoted_lower (s : Step) (position : Position) :
    (s.lower build config position).unnoted = s.lower build.unnoted config position := by
  simp only [lower, Traced.unnoted_bind, StepKind.unnoted_lowerIn]
  refine congrArg _ (funext fun operators => ?_)
  have hkept : ∀ event ∈ (operators ++ s.binding).map fun o =>
      Event.emitted ⟨s.name, position⟩ o.name, event.begun?.isNone := by
    simp only [List.forall_mem_map]
    intro o _
    rw [Event.begun?_emitted, Option.isNone_none]
  rw [Traced.unnoted_emit, List.filter_eq_self.2 hkept]
  rfl

theorem Step.unnoted_lowerNoted (s : Step) (position : Position) :
    (s.lowerNoted build config position).unnoted = s.lower build.unnoted config position := by
  rw [lowerNoted, Traced.unnoted_bind, unnoted_lower]
  rfl

namespace Builder

theorem unnoted_notedSteps (build : Builder) (config : Config) :
    (notedSteps build config).unnoted = ofSteps build.unnoted config := by
  funext t scope
  simp only [unnoted, notedSteps, Traced.unnoted_bind, Traced.unnoted_traverse,
    Step.unnoted_lowerNoted]
  rfl

/-- **Without its notes a run is the one it stands for**, at every nesting depth. -/
theorem unnoted_noted (config : Config) (depth : Nat) :
    (noted config (depth + 1)).unnoted = ofDepth config depth := by
  induction depth with
  | zero => exact unnoted_notedSteps unused config
  | succ depth ih => rw [noted, ofDepth, unnoted_notedSteps, ih]

end Builder

namespace Traversal

theorem unnoted_notedOutcomes (t : Traversal) (scope : Position) :
    (t.notedOutcomes config scope).map Traced.unnoted = t.outcomes config scope := by
  rw [notedOutcomes, List.map_map, outcomes]
  refine List.map_congr_left fun x _ => ?_
  rw [Function.comp_apply, Step.unnoted_lowerNoted, Builder.unnoted_noted]

/-- **Without its notes the run is the one it stands for.** -/
theorem unnoted_buildNoted (order : List Nat) (t : Traversal) (scope : Position) :
    (t.buildNoted order config scope).unnoted = t.buildEnding order config scope := by
  unfold buildNoted buildEnding
  split
  · rw [buildFinishing, ← unnoted_notedOutcomes, List.map_map, List.flatMap_map]
    exact Traced.ext List.filter_flatMap rfl
  · rw [buildInOrder, ← Builder.unnoted_noted]
    rfl

end Traversal
end Steps

/-! ## Steps that have begun -/

/-- The steps that begin in a computation. -/
def Traced.begun {ε α : Type} (x : Traced ε α) : List StepRef := x.log.filterMap Event.begun?

/-- What the computation names has begun in it, or is known before. All that begins is among the given
steps, in their order. -/
structure Accounts {α : Type} (known : List StepRef) (x : Lowering α) (steps : List StepRef) :
    Prop where
  begun : x.begun.Sublist steps
  events : ∀ event ∈ x.log, ∀ step ∈ event.step?, step ∈ known ++ x.begun
  error : ∀ e, x.result = .error e → e.step ∈ known ++ x.begun

namespace Accounts

variable {α β : Type} {known : List StepRef} {x : Lowering α} {steps steps' : List StepRef}

theorem of_log_nil (hlog : x.log = []) (herror : ∀ e, x.result = .error e → e.step ∈ known) :
    Accounts known x steps := by
  have hbegun : x.begun = [] := by rw [Traced.begun, hlog, List.filterMap_nil]
  constructor
  · simp [hbegun]
  · simp [hlog]
  · simpa [hbegun] using herror

theorem pure (a : α) : Accounts known (Pure.pure a) steps := of_log_nil rfl nofun

theorem fail {c : Context} (h : c.step ∈ known) (fault : Fault) :
    Accounts known (c.fail fault : Lowering α) steps := by
  refine of_log_nil rfl fun e he => ?_
  obtain rfl := Except.error.inj he
  exact h

theorem emit {events : List Event} (hbegun : ∀ event ∈ events, event.begun? = none)
    (hknown : ∀ event ∈ events, ∀ step ∈ event.step?, step ∈ known) :
    Accounts known (Traced.emit events) steps := by
  refine ⟨?_, fun event hevent step hstep => ?_, nofun⟩
  · rw [Traced.begun, Traced.log_emit, List.filterMap_eq_nil_iff.2 hbegun]
    exact List.nil_sublist _
  · exact List.mem_append_left _ (hknown event hevent step hstep)

/-- The computation may be part of one that knows more steps. -/
theorem mono (h : Accounts known x steps) {more : List StepRef} (hmore : known ⊆ more) :
    Accounts more x steps := by
  have hsub : known ++ x.begun ⊆ more ++ x.begun :=
    List.append_subset.2 ⟨List.subset_append_of_subset_left _ hmore, List.subset_append_right _ _⟩
  exact ⟨h.begun, fun event hevent step hstep => hsub (h.events event hevent step hstep),
    fun e he => hsub (h.error e he)⟩

/-- What begins in a computation is among itself. -/
theorem own (h : Accounts known x steps) : Accounts known x x.begun :=
  ⟨List.Sublist.refl _, h.events, h.error⟩

/-- The second part begins what it begins after the first. -/
theorem bind {f : α → Lowering β} (hx : Accounts known x steps)
    (hf : ∀ a, Accounts known (f a) steps') : Accounts known (x >>= f) (steps ++ steps') := by
  cases hresult : x.result with
  | error e =>
    rw [Traced.bind_of_error hresult]
    refine ⟨hx.begun.trans (List.sublist_append_left _ _), hx.events, fun e' he' => ?_⟩
    obtain rfl := Except.error.inj he'
    exact hx.error e hresult
  | ok a =>
    have hfa := hf a
    rw [Traced.bind_of_ok hresult]
    have hbegun : Traced.begun ⟨x.log ++ (f a).log, (f a).result⟩ = x.begun ++ (f a).begun :=
      List.filterMap_append
    have hfirst : known ++ x.begun ⊆ known ++ (x.begun ++ (f a).begun) := by simp
    have hsecond : known ++ (f a).begun ⊆ known ++ (x.begun ++ (f a).begun) := by simp
    refine ⟨?_, fun event hevent step hstep => ?_, fun e he => ?_⟩
    · rw [hbegun]
      exact hx.begun.append hfa.begun
    · rw [hbegun]
      rcases List.mem_append.1 hevent with hevent | hevent
      · exact hfirst (hx.events event hevent step hstep)
      · exact hsecond (hfa.events event hevent step hstep)
    · rw [hbegun]
      exact hsecond (hfa.error e he)

/-- What is made of an outcome begins nothing more. -/
theorem map (hx : Accounts known x steps) (h : α → β) :
    Accounts known (x >>= fun a => Pure.pure (h a)) steps := by
  have hmap : Accounts known (x >>= fun a => Pure.pure (h a)) (steps ++ []) :=
    hx.bind fun a => pure (h a)
  rwa [List.append_nil] at hmap

theorem traverse {f : β → Lowering α} {g : β → List StepRef} {bs : List β}
    (h : ∀ b ∈ bs, Accounts known (f b) (g b)) :
    Accounts known (Traced.traverse f bs) (bs.flatMap g) := by
  induction bs with
  | nil => exact pure []
  | cons b bs ih =>
    obtain ⟨hhead, htail⟩ := List.forall_mem_cons.1 h
    exact hhead.bind fun a => (ih htail).map (List.cons a)

/-- Computations that are gathered begin what they begin by themselves. -/
theorem gather {order : List Nat} {outcomes : List (Lowering α)}
    (h : ∀ x ∈ outcomes, Accounts known x x.begun) (f : List α → β) :
    Accounts known ⟨outcomes.flatMap Traced.log,
      (TraversalPlan.gather order (outcomes.map Traced.result)).map f⟩
      (outcomes.flatMap Traced.begun) := by
  have hbegun : (outcomes.flatMap Traced.log).filterMap Event.begun? =
      outcomes.flatMap Traced.begun := List.filterMap_flatMap
  -- what one of the computations names is known or has begun in one of them
  have hsub : ∀ x ∈ outcomes, known ++ x.begun ⊆ known ++ outcomes.flatMap Traced.begun := by
    intro x hx
    refine List.append_subset.2 ⟨List.subset_append_left _ _, ?_⟩
    exact List.subset_append_of_subset_right _ fun s hs => List.mem_flatMap_of_mem hx hs
  constructor
  · exact hbegun ▸ List.Sublist.refl _
  · intro event hevent step hstep
    obtain ⟨x, hx, hevent⟩ := List.mem_flatMap.1 hevent
    rw [Traced.begun, hbegun]
    exact hsub x hx ((h x hx).events event hevent step hstep)
  · intro e he
    rw [Traced.begun, hbegun]
    cases hgather : TraversalPlan.gather order (outcomes.map Traced.result) with
    | ok as =>
      rw [hgather] at he
      cases he
    | error e' =>
      rw [hgather] at he
      obtain rfl := Except.error.inj he
      obtain ⟨x, hx, hresult⟩ := List.mem_map.1 (mem_of_gather_eq_error hgather)
      exact hsub x hx ((h x hx).error e' hresult)

/-- The announcement of a known step begins nothing. -/
theorem announce {event : Event} (hbegun : event.begun? = none)
    (hknown : ∀ step ∈ event.step?, step ∈ known) (hx : Accounts known x steps) :
    Accounts known (Traced.emit [event] >>= fun _ => x) steps := by
  have hemit : Accounts known (Traced.emit [event]) [] :=
    emit (by simpa using hbegun) (by simpa using hknown)
  exact hemit.bind fun _ => hx

end Accounts

/-- What the builder names has begun. -/
def Builder.Accounted (build : Builder) : Prop :=
  ∀ t scope, Accounts [] (build t scope) (build t scope).begun

/-- The steps that begin in the subquery of a slot, for a step at a position. -/
def Slot.begun (build : Builder) (p : Position) (s : Slot) : List StepRef :=
  (build s.traversal (p.child s.number)).begun

section Rules

variable {c : Context}

namespace Context

/-- The steps that begin in the subqueries of some slots. -/
def begunIn (c : Context) (slots : List Slot) : List StepRef :=
  (slots.filter fun s => s.expr?.isNone).flatMap (Slot.begun c.build c.step.position)

theorem begunIn_append (slots slots' : List Slot) :
    c.begunIn (slots ++ slots') = c.begunIn slots ++ c.begunIn slots' := by
  rw [begunIn, List.filter_append, List.flatMap_append]
  rfl

theorem begunIn_eq_flatMap (slots : List Slot) :
    c.begunIn slots = slots.flatMap fun s => c.begunIn [s] := by
  induction slots with
  | nil => rfl
  | cons s slots ih => rw [List.flatMap_cons, ← ih, ← begunIn_append, List.singleton_append]

theorem begunIn_of_none {s : Slot} (h : s.expr? = none) :
    c.begunIn [s] = s.begun c.build c.step.position := by
  simp [begunIn, h]

/-- A slot begins the steps of its subquery if it needs one. -/
theorem accounts_fill (hbuild : c.build.Accounted) (s : Slot) :
    Accounts [c.step] (c.fill s) (c.begunIn [s]) := by
  by_cases hsize : s.extraction.size = 1
  · cases he : s.expr? with
    | some e =>
      rw [fill_of_expr? he]
      exact .pure _
    | none =>
      rw [fill_of_none hsize he, begunIn_of_none he]
      have hinner := (hbuild s.traversal (c.step.position.child s.number)).mono
        (List.nil_subset [c.step])
      exact (hinner.map _).announce rfl (by simp [Event.step?])
  · rw [fill_of_size_ne hsize]
    exact .fail List.mem_cons_self _

end Context

theorem Traversal.accounts_filterOperator (hbuild : c.build.Accounted) (t : Traversal)
    (filter : String → String) (join : JoinKind) :
    Accounts [c.step] (t.filterOperator c filter join) (c.begunIn [⟨"", t, true, .subquery, 0⟩]) := by
  unfold filterOperator
  by_cases hsize : t.extract.size = 1
  · rw [Context.one_of_size hsize, pure_bind]
    cases he : t.extract.single? with
    | some e => exact .pure _
    | none =>
      rw [Context.begunIn_of_none ((Slot.expr?_current 0).trans he), Slot.begun,
        Slot.traversal_current]
      have hinner := (hbuild t (c.step.position.child 0)).mono (List.nil_subset [c.step])
      exact (hinner.map _).announce rfl (by simp [Event.step?])
  · rw [Context.one_of_size_ne hsize]
    exact .fail List.mem_cons_self _

theorem GroupStep.accounts_aggregate (value : Traversal) (a : Alias) :
    Accounts [c.step] (aggregate c value a) [] := by
  obtain ⟨kind, source, haggregate⟩ := aggregate_eq value
  rw [haggregate]
  cases valueFault? value with
  | some fault => exact .fail List.mem_cons_self _
  | none => exact .pure _

namespace ModulatedStep

theorem accounts_terminal (hbuild : c.build.Accounted) (m : ModulatedStep) (es : List String) :
    Accounts [c.step] (m.terminal c es) (c.begunIn m.filterSlots) := by
  cases m with
  | sample s =>
    rw [terminal]
    split
    · exact .fail List.mem_cons_self _
    · exact .pure _
  | group s =>
    have hvalues : Accounts [c.step] (Traced.traverse
        (fun x => GroupStep.aggregate c x.1 (c.column .groupValue "" x.2))
        s.valueTraversals.zipIdx) (s.valueTraversals.zipIdx.flatMap fun _ => []) :=
      .traverse fun x _ => GroupStep.accounts_aggregate x.1 _
    rw [List.flatMap_eq_nil_iff.2 fun _ _ => rfl] at hvalues
    exact hvalues.map _
  | wherePredicate s =>
    rw [terminal]
    split
    · exact .fail List.mem_cons_self _
    · exact .pure _
  | whereTraversal t => exact t.accounts_filterOperator hbuild _ _
  | not t => exact t.accounts_filterOperator hbuild _ _
  | _ => exact .pure _

/-- **A rule begins the steps of its subqueries**, and names only these and its own step. -/
theorem accounts_lowerIn (hbuild : c.build.Accounted) (m : ModulatedStep) :
    Accounts [c.step] (m.lowerIn c) (c.begunIn (m.slots c.config.policy ++ m.filterSlots)) := by
  rw [lowerIn_eq, lowerParts]
  cases m.fault? with
  | some fault => exact .fail List.mem_cons_self _
  | none =>
    rw [Context.begunIn_append, Context.begunIn_eq_flatMap (m.slots _)]
    have hslots := Accounts.traverse fun s (_ : s ∈ m.slots c.config.policy) =>
      c.accounts_fill hbuild s
    exact hslots.bind fun resolved => (accounts_terminal hbuild m _).map _

end ModulatedStep
end Rules

section Steps

variable {build : Builder} (config : Config)

/-- **A step names only itself and what begins in its subqueries.** -/
theorem Step.accounts_lower (hbuild : build.Accounted) (s : Step) (position : Position) :
    Accounts [⟨s.name, position⟩] (s.lower build config position)
      ((s.subqueries config.policy).flatMap (Slot.begun build position)) := by
  let c : Context := ⟨build, config, ⟨s.name, position⟩⟩
  have hkind : Accounts [c.step] (s.kind.lowerIn c)
      ((s.subqueries config.policy).flatMap (Slot.begun build position)) := by
    obtain ⟨kind, labels⟩ := s
    cases kind with
    | modulated m => exact m.accounts_lowerIn hbuild
    | elementary s =>
      rw [StepKind.lowerIn]
      cases s.lower c.step.position with
      | ok operators => exact .pure _
      | error fault => exact .fail List.mem_cons_self _
  have hemit : ∀ operators : List Operator, Accounts [c.step]
      (Traced.emit (operators.map fun o => .emitted c.step o.name)) [] := by
    intro operators
    refine .emit ?_ ?_
    · simp
    · simp [Event.step?]
  have hall := hkind.bind fun operators => (hemit (operators ++ s.binding)).map fun _ =>
    operators ++ s.binding
  rwa [List.append_nil] at hall

theorem Step.accounts_lowerNoted (hbuild : build.Accounted) (s : Step) (position : Position) :
    Accounts [] (s.lowerNoted build config position)
      (⟨s.name, position⟩ :: (s.subqueries config.policy).flatMap (Slot.begun build position)) := by
  have hlower := s.accounts_lower config hbuild position
  have hbegun : (s.lowerNoted build config position).begun =
      ⟨s.name, position⟩ :: (s.lower build config position).begun := rfl
  constructor
  · rw [hbegun]
    exact hlower.begun.cons_cons _
  · intro event hevent step hstep
    rw [hbegun]
    rcases List.mem_cons.1 hevent with rfl | hevent
    · simp_all
    · exact hlower.events event hevent step hstep
  · intro e he
    rw [hbegun]
    exact hlower.error e he

namespace Builder

/-- **A traversal begins what its steps begin.** -/
theorem accounts_notedSteps (hbuild : build.Accounted) (t : Traversal) (scope : Position) :
    Accounts [] (notedSteps build config t scope) (t.steps.zipIdx.flatMap fun x =>
      (x.1.lowerNoted build config (scope.child x.2)).begun) :=
  (Accounts.traverse fun x _ =>
    (x.1.accounts_lowerNoted config hbuild (scope.child x.2)).own).map _

theorem accounted_noted (count : Nat) : (noted config count).Accounted := by
  induction count with
  | zero => exact fun _ _ => .pure _
  | succ count ih => exact fun t scope => (accounts_notedSteps config ih t scope).own

end Builder

/-- **A run names only steps that have begun**, each in a step of the traversal. -/
theorem Traversal.accounts_buildNoted (order : List Nat) (t : Traversal) (scope : Position) :
    ∃ count, Accounts [] (t.buildNoted order config scope)
      (t.steps.zipIdx.flatMap fun x =>
        (x.1.lowerNoted (Builder.noted config count) config (scope.child x.2)).begun) := by
  unfold buildNoted
  split
  · refine ⟨t.depth + 1, ?_⟩
    have houtcomes : ∀ x ∈ t.notedOutcomes config scope, Accounts [] x x.begun := by
      simp only [notedOutcomes, List.forall_mem_map]
      exact fun x _ =>
        (x.1.accounts_lowerNoted config (Builder.accounted_noted config _) (scope.child x.2)).own
    have hbegun : (t.notedOutcomes config scope).flatMap Traced.begun =
        t.steps.zipIdx.flatMap fun x => (x.1.lowerNoted (Builder.noted config (t.depth + 1)) config
          (scope.child x.2)).begun := List.flatMap_map _ _ _
    rw [← hbegun]
    exact Accounts.gather houtcomes fun parts => Plan.mk parts.flatten
  · exact ⟨t.depth, Builder.accounts_notedSteps config (Builder.accounted_noted config _) t scope⟩

end Steps
end TraversalPlan

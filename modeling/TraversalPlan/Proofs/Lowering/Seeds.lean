import TraversalPlan.Proofs.Lowering.Output
import TraversalPlan.Proofs.Lowering.Tally

/-!
# What the default seed reaches

The configuration gives a seed to the samples that have none. Two runs that differ only in this seed go
alike: they log the same and fail alike, or else their plans are the same but for seeds. A plan has
its seeds in the order of the sample steps that were lowered, so just those of the steps without a
seed of their own differ (**`Traversal.build_of_seed`**).

* `Plan.seeds`, `Plan.withoutSeeds`: the seeds of a plan at all depths, and the rest of it. Together
  they are the plan (`Operator.eq_of_withoutSeeds`).
* `Traced.AlikeUpTo`: two computations log the same, and what they come to is the same up to a
  function. Sequences and lists keep to this, and so does each rule.
* `Traversal.sampleSeeds`: the seeds of the sample steps that are lowered, in order.
* `Step.Inside`: the steps of a query at all depths.
-/

namespace TraversalPlan

/-! ## Seeds of a plan -/

namespace Operator

mutual

/-- The seeds of the samples at all depths, in order. -/
def seeds : Operator → List UInt64
  | apply subplan _ _ => seedsOf subplan
  | sample _ seed _ => [seed]
  | _ => []

def seedsOf : List Operator → List UInt64
  | [] => []
  | o :: os => seeds o ++ seedsOf os

end

mutual

/-- The operator with all seeds at all depths set to zero. -/
def withoutSeeds : Operator → Operator
  | apply subplan join column => apply (eachWithoutSeeds subplan) join column
  | sample amount _ probability => sample amount 0 probability
  | o => o

def eachWithoutSeeds : List Operator → List Operator
  | [] => []
  | o :: os => withoutSeeds o :: eachWithoutSeeds os

end

theorem seedsOf_append (os ps : List Operator) : seedsOf (os ++ ps) = seedsOf os ++ seedsOf ps := by
  induction os with
  | nil => rfl
  | cons o os ih => rw [List.cons_append, seedsOf, seedsOf, ih, List.append_assoc]

theorem eachWithoutSeeds_eq : eachWithoutSeeds = List.map withoutSeeds := by
  funext os
  induction os with
  | nil => rfl
  | cons o os ih => rw [eachWithoutSeeds, ih, List.map_cons]

@[simp]
theorem name_withoutSeeds (o : Operator) : o.withoutSeeds.name = o.name := by
  cases o <;> rfl

mutual

theorem length_seeds_withoutSeeds (o : Operator) : o.withoutSeeds.seeds.length = o.seeds.length := by
  cases o with
  | apply subplan join column =>
    rw [withoutSeeds, seeds, seeds, length_seedsOf_eachWithoutSeeds]
  | _ => rfl

theorem length_seedsOf_eachWithoutSeeds (os : List Operator) :
    (seedsOf (eachWithoutSeeds os)).length = (seedsOf os).length := by
  cases os with
  | nil => rfl
  | cons o os =>
    rw [eachWithoutSeeds, seedsOf, seedsOf, List.length_append, List.length_append,
      length_seeds_withoutSeeds, length_seedsOf_eachWithoutSeeds]

end

mutual

/-- **The seeds and the rest are the whole operator.** -/
theorem eq_of_withoutSeeds {o p : Operator} (h : o.withoutSeeds = p.withoutSeeds)
    (hseeds : o.seeds = p.seeds) : o = p := by
  cases o with
  | apply subplan join column =>
    cases p with
    | apply subplan' join' column' =>
      obtain ⟨hsubplan, rfl, rfl⟩ := Operator.apply.inj h
      rw [eq_of_eachWithoutSeeds hsubplan hseeds]
    | _ => cases h
  | sample amount seed probability =>
    cases p with
    | sample amount' seed' probability' =>
      obtain ⟨rfl, -, rfl⟩ := Operator.sample.inj h
      obtain rfl := List.singleton_inj.1 hseeds
      rfl
    | _ => cases h
  | _ =>
    cases p with
    | apply => cases h
    | sample => cases h
    | _ => exact h

theorem eq_of_eachWithoutSeeds {os ps : List Operator}
    (h : eachWithoutSeeds os = eachWithoutSeeds ps) (hseeds : seedsOf os = seedsOf ps) :
    os = ps := by
  cases os with
  | nil =>
    cases ps with
    | nil => rfl
    | cons p ps => cases h
  | cons o os =>
    cases ps with
    | nil => cases h
    | cons p ps =>
      obtain ⟨hhead, htail⟩ := List.cons.inj h
      have hlength : o.seeds.length = p.seeds.length := by
        rw [← length_seeds_withoutSeeds o, hhead, length_seeds_withoutSeeds]
      obtain ⟨hseed, hrest⟩ := List.append_inj hseeds hlength
      rw [eq_of_withoutSeeds hhead hseed, eq_of_eachWithoutSeeds htail hrest]

end

end Operator

/-- The seeds of the samples at all depths, in order. -/
def Plan.seeds (p : Plan) : List UInt64 := Operator.seedsOf p.operators

/-- The plan with all seeds set to zero. -/
def Plan.withoutSeeds (p : Plan) : Plan := ⟨Operator.eachWithoutSeeds p.operators⟩

/-! ## Computations that are alike -/

namespace Traced

variable {ε α β γ δ : Type}

/-- Two computations log the same and fail alike, or else come to the same up to a function. -/
inductive AlikeUpTo (f : α → γ) : Traced ε α → Traced ε α → Prop
  | ok {log : List Event} {a b : α} (h : f a = f b) : AlikeUpTo f ⟨log, .ok a⟩ ⟨log, .ok b⟩
  | error {log : List Event} {e : ε} : AlikeUpTo f ⟨log, .error e⟩ ⟨log, .error e⟩

namespace AlikeUpTo

theorem refl (f : α → γ) : ∀ x : Traced ε α, x.AlikeUpTo f x
  | ⟨_, .ok _⟩ => .ok rfl
  | ⟨_, .error _⟩ => .error

theorem pure {f : α → γ} {a b : α} (h : f a = f b) :
    (Pure.pure a : Traced ε α).AlikeUpTo f (Pure.pure b) := .ok h

theorem bind {f : α → γ} {f' : β → δ} {x y : Traced ε α} {g h : α → Traced ε β}
    (hxy : x.AlikeUpTo f y) (hgh : ∀ a b, f a = f b → (g a).AlikeUpTo f' (h b)) :
    (x >>= g).AlikeUpTo f' (y >>= h) := by
  cases hxy with
  | error => exact .error
  | @ok log a b hab =>
    have hnext := hgh a b hab
    rw [bind_of_ok rfl, bind_of_ok rfl]
    cases hga : g a
    cases hhb : h b
    rw [hga, hhb] at hnext
    cases hnext with
    | ok hab => exact .ok hab
    | error => exact .error

theorem traverse {f : β → γ} {g h : α → Traced ε β} (hgh : ∀ a, (g a).AlikeUpTo f (h a))
    (as : List α) : (Traced.traverse g as).AlikeUpTo (List.map f) (Traced.traverse h as) := by
  induction as with
  | nil => exact refl _ _
  | cons a as ih =>
    refine (hgh a).bind fun b b' hb => ih.bind fun bs bs' hbs => pure ?_
    rw [List.map_cons, List.map_cons, hb, hbs]

end AlikeUpTo
end Traced

open Traced

/-! ## Rules -/

section Rules

variable {build build' : Builder} {policy : ModulatorPolicy} {d d' : UInt64} {step : StepRef}

/-- Two ways of lowering subqueries come to the same plans but for seeds. -/
def Builder.AlikeButSeeds (build build' : Builder) : Prop :=
  ∀ t scope, (build t scope).AlikeUpTo Plan.withoutSeeds (build' t scope)

/-- What stands for a slot but for seeds. -/
def Resolved.withoutSeeds (r : Resolved) : Resolved :=
  ⟨r.subquery.map Operator.withoutSeeds, r.expression⟩

theorem Context.alike_fill (hbuild : build.AlikeButSeeds build') (s : Slot) :
    (fill ⟨build, ⟨policy, d, false⟩, step⟩ s).AlikeUpTo Resolved.withoutSeeds
      (fill ⟨build', ⟨policy, d', false⟩, step⟩ s) := by
  refine (AlikeUpTo.refl (fun e => e) _).bind fun e e' he => ?_
  obtain rfl : e = e' := he
  cases e with
  | some e => exact .pure rfl
  | none =>
    refine (AlikeUpTo.refl (fun u => u) _).bind fun _ _ _ => (hbuild _ _).bind fun p p' hp => ?_
    refine .pure ?_
    have hoperators := Plan.mk.inj hp
    simp [Resolved.withoutSeeds, Operator.withoutSeeds, hoperators, Slot.column]

theorem Traversal.alike_filterOperator (hbuild : build.AlikeButSeeds build') (t : Traversal)
    (filter : String → String) (join : JoinKind) :
    (t.filterOperator ⟨build, ⟨policy, d, false⟩, step⟩ filter join).AlikeUpTo
      Operator.withoutSeeds (t.filterOperator ⟨build', ⟨policy, d', false⟩, step⟩ filter join) := by
  refine (AlikeUpTo.refl (fun e => e) _).bind fun e e' he => ?_
  obtain rfl : e = e' := he
  cases e with
  | some e => exact .pure rfl
  | none =>
    refine (AlikeUpTo.refl (fun u => u) _).bind fun _ _ _ => (hbuild _ _).bind fun p p' hp => ?_
    refine .pure ?_
    rw [Operator.withoutSeeds, Operator.withoutSeeds, Plan.mk.inj hp]

namespace ModulatedStep

/-- Only a sample asks for the default seed. -/
theorem alike_terminal (hbuild : build.AlikeButSeeds build') (m : ModulatedStep)
    (es : List String) :
    (m.terminal ⟨build, ⟨policy, d, false⟩, step⟩ es).AlikeUpTo Operator.withoutSeeds
      (m.terminal ⟨build', ⟨policy, d', false⟩, step⟩ es) := by
  cases m with
  | sample s =>
    rw [terminal, terminal]
    cases SampleAmount.ofNumber? s.amount with
    | none => exact .error
    | some amount => exact .pure rfl
  | whereTraversal t => exact t.alike_filterOperator hbuild _ _
  | not t => exact t.alike_filterOperator hbuild _ _
  | _ => exact .refl _ _

/-- **A rule comes to the same operators but for seeds.** -/
theorem alike_lowerIn (hbuild : build.AlikeButSeeds build') (m : ModulatedStep) :
    (m.lowerIn ⟨build, ⟨policy, d, false⟩, step⟩).AlikeUpTo (List.map Operator.withoutSeeds)
      (m.lowerIn ⟨build', ⟨policy, d', false⟩, step⟩) := by
  rw [lowerIn_eq, lowerIn_eq]
  unfold lowerParts
  cases m.fault? with
  | some fault => exact .error
  | none =>
    refine (AlikeUpTo.traverse (Context.alike_fill hbuild) _).bind fun rs rs' hrs => ?_
    have hexpressions : rs.map Resolved.expression = rs'.map Resolved.expression := by
      simpa [Function.comp_def, Resolved.withoutSeeds] using
        congrArg (List.map Resolved.expression) hrs
    have hsubqueries : (rs.filterMap Resolved.subquery).map Operator.withoutSeeds =
        (rs'.filterMap Resolved.subquery).map Operator.withoutSeeds := by
      simpa [List.filterMap_map, List.map_filterMap, Function.comp_def, Resolved.withoutSeeds] using
        congrArg (List.filterMap Resolved.subquery) hrs
    rw [hexpressions]
    refine (m.alike_terminal hbuild _).bind fun o o' ho => .pure ?_
    rw [Resolved.operators, Resolved.operators, List.map_append, List.map_append, hsubqueries,
      List.map_singleton, List.map_singleton, ho]

end ModulatedStep

theorem Step.alike_lower (hbuild : build.AlikeButSeeds build') (s : Step) (position : Position) :
    (s.lower build ⟨policy, d, false⟩ position).AlikeUpTo (List.map Operator.withoutSeeds)
      (s.lower build' ⟨policy, d', false⟩ position) := by
  have hkind : (s.kind.lowerIn ⟨build, ⟨policy, d, false⟩, ⟨s.name, position⟩⟩).AlikeUpTo
      (List.map Operator.withoutSeeds)
      (s.kind.lowerIn ⟨build', ⟨policy, d', false⟩, ⟨s.name, position⟩⟩) := by
    cases s.kind with
    | elementary s => exact .refl _ _
    | modulated m => exact m.alike_lowerIn hbuild
  refine hkind.bind fun own own' hown => ?_
  have hall : (own ++ s.binding).map Operator.withoutSeeds =
      (own' ++ s.binding).map Operator.withoutSeeds := by
    rw [List.map_append, List.map_append, hown]
  -- an event shows the name of an operator and not its seed
  have hnames : ∀ step : StepRef, (own ++ s.binding).map (fun o => Event.emitted step o.name) =
      (own' ++ s.binding).map fun o => Event.emitted step o.name := by
    intro step
    simpa [Function.comp_def] using congrArg (List.map fun o => Event.emitted step o.name) hall
  dsimp only
  rw [hnames]
  exact (AlikeUpTo.refl (fun u => u) _).bind fun _ _ _ => .pure hall

namespace Builder

theorem alike_ofSteps (hbuild : build.AlikeButSeeds build') :
    (ofSteps build ⟨policy, d, false⟩).AlikeButSeeds (ofSteps build' ⟨policy, d', false⟩) := by
  intro t scope
  refine (AlikeUpTo.traverse (fun _ => Step.alike_lower hbuild _ _) _).bind
    fun parts parts' hparts => .pure ?_
  rw [Plan.withoutSeeds, Plan.withoutSeeds, Operator.eachWithoutSeeds_eq, List.map_flatten, hparts,
    List.map_flatten]

theorem alike_ofDepth (depth : Nat) :
    (ofDepth ⟨policy, d, false⟩ depth).AlikeButSeeds (ofDepth ⟨policy, d', false⟩ depth) := by
  induction depth with
  | zero => exact alike_ofSteps fun _ _ => .refl _ _
  | succ depth ih => exact alike_ofSteps ih

end Builder
end Rules

/-! ## Where seeds come from -/

/-- The seed of a sample step, which may be missing. -/
def ModulatedStep.ownSeeds : ModulatedStep → List (Option UInt64)
  | sample s => [s.seed]
  | _ => []

def Step.ownSeeds (s : Step) : List (Option UInt64) :=
  match s.kind with
  | .elementary _ => []
  | .modulated m => m.ownSeeds

/-- The seeds of the sample steps that are lowered. Those in the subqueries of a step come before its
own. -/
def Traversal.sampleSeeds (policy : ModulatorPolicy) (t : Traversal) : List (Option UInt64) :=
  t.steps.attach.flatMap fun ⟨s, _⟩ =>
    ((s.subqueries policy).attach.flatMap fun ⟨slot, _⟩ =>
      slot.traversal.sampleSeeds policy) ++ s.ownSeeds
termination_by t.depth
decreasing_by
  rename_i hs hslot
  have hslot := Step.depth_of_mem_subqueries hslot
  have hs := depth_le_stepsDepth hs
  rw [t.depth_eq]
  omega

/-- The seeds of the sample steps in the subqueries of some slots. -/
def Slot.sampleSeeds (policy : ModulatorPolicy) (s : Slot) : List (Option UInt64) :=
  s.traversal.sampleSeeds policy

theorem Traversal.sampleSeeds_eq (policy : ModulatorPolicy) (t : Traversal) :
    t.sampleSeeds policy = t.steps.flatMap fun s =>
      (s.subqueries policy).flatMap (Slot.sampleSeeds policy) ++ s.ownSeeds := by
  rw [sampleSeeds]
  simp only [List.flatMap_subtype, List.unattach_attach]
  rfl

section Provenance

variable {config : Config} {step : StepRef}

/-- Seeds of a plan that come from sample steps: a step without a seed has the default seed. -/
def Config.seedsFor (config : Config) (seeds : List (Option UInt64)) : List UInt64 :=
  seeds.map fun seed => seed.getD config.defaultSampleSeed

theorem Config.seedsFor_append (seeds seeds' : List (Option UInt64)) :
    config.seedsFor (seeds ++ seeds') = config.seedsFor seeds ++ config.seedsFor seeds' :=
  List.map_append

/-- The plans that the subqueries of a step are lowered to have the seeds of their sample steps. -/
def Slot.Seeded (config : Config) (step : StepRef) (s : Slot) : Prop :=
  ∀ plan, (s.lower config step).result = .ok plan →
    plan.seeds = config.seedsFor (s.sampleSeeds config.policy)

theorem seedsOf_subqueries {slots : List Slot} {ops : List Operator}
    (h : List.Forall₂ (fun s o => s.IsSubquery (Context.ofStep config step) o) slots ops)
    (hseeded : ∀ s ∈ slots, s.Seeded config step) :
    Operator.seedsOf ops = config.seedsFor (slots.flatMap (Slot.sampleSeeds config.policy)) := by
  induction h with
  | nil => rfl
  | cons ho _ ih =>
    obtain ⟨hhead, htail⟩ := List.forall_mem_cons.1 hseeded
    obtain ⟨plan, hplan, rfl⟩ := ho
    rw [Operator.seedsOf, Operator.seeds, List.flatMap_cons, Config.seedsFor_append, ih htail]
    exact congrArg (· ++ _) (hhead plan hplan)

namespace ModulatedStep

/-- A subplan that filters has the seeds of the traversal. -/
theorem seeds_of_existence {t : Traversal} {plan : Plan} (impure : t.extract.single? = none)
    (lowered : (t.build config (step.position.child 0)).result = .ok plan)
    (hseeded : ∀ s ∈ List.filter (fun s : Slot => s.expr?.isNone) [⟨"", t, true, .subquery, 0⟩],
      s.Seeded config step) :
    plan.seeds = config.seedsFor
      ((List.filter (fun s : Slot => s.expr?.isNone) [⟨"", t, true, .subquery, 0⟩]).flatMap
        (Slot.sampleSeeds config.policy)) := by
  rw [Slot.filter_current_of_none 0 impure] at hseeded ⊢
  rw [List.flatMap_singleton]
  refine hseeded _ List.mem_cons_self plan ?_
  rwa [Slot.lower, Slot.traversal_current]

/-- The operator of a step has a seed of its own if it is a sample, and the seeds of a subplan if it
filters by one. -/
theorem seeds_of_writes {m : ModulatedStep} {es : List String} {o : Operator}
    (h : m.Writes (Context.ofStep config step) es o)
    (hseeded : ∀ s ∈ m.filterSlots.filter fun s => s.expr?.isNone, s.Seeded config step) :
    o.seeds = config.seedsFor ((m.filterSlots.filter fun s => s.expr?.isNone).flatMap
      (Slot.sampleSeeds config.policy) ++ m.ownSeeds) := by
  cases h with
  | whereTraversal t e pure =>
    rw [filterSlots, Slot.filter_current_of_some 0 pure]
    rfl
  | not t e pure =>
    rw [filterSlots, Slot.filter_current_of_some 0 pure]
    rfl
  | semi t plan impure lowered =>
    exact (seeds_of_existence impure lowered hseeded).trans
      (congrArg config.seedsFor (List.append_nil _).symm)
  | anti t plan impure lowered =>
    exact (seeds_of_existence impure lowered hseeded).trans
      (congrArg config.seedsFor (List.append_nil _).symm)
  | _ => rfl

/-- **The seeds of a rule** are those of its subqueries in order, and its own. -/
theorem seeds_of_lowerIn {m : ModulatedStep} {ops : List Operator}
    (h : (m.lowerIn (Context.ofStep config step)).result = .ok ops)
    (hseeded : ∀ s ∈ m.subqueries config.policy, s.Seeded config step) :
    Operator.seedsOf ops = config.seedsFor
      ((m.subqueries config.policy).flatMap (Slot.sampleSeeds config.policy) ++ m.ownSeeds) := by
  obtain ⟨subqueries, operator, rfl, hsubqueries, hwrites⟩ := operators_of_lowerIn h
  rw [ModulatedStep.subqueries, List.filter_append] at hseeded ⊢
  obtain ⟨hslots, hfilter⟩ := List.forall_mem_append.1 hseeded
  rw [Operator.seedsOf_append, seedsOf_subqueries hsubqueries hslots, List.flatMap_append,
    List.append_assoc, Config.seedsFor_append, ← seeds_of_writes hwrites hfilter]
  exact congrArg _ (List.append_nil _)

end ModulatedStep

theorem ElementaryStep.seeds_of_lower {s : ElementaryStep} {position : Position}
    {ops : List Operator} (h : s.lower position = .ok ops) : Operator.seedsOf ops = [] := by
  obtain ⟨-, rfl⟩ := lower_eq_ok.1 h
  cases s with
  | hasLabel labels => cases labels <;> rfl
  | _ => rfl

theorem Step.seeds_of_build {s : Step} {position : Position} {ops : List Operator}
    (h : (s.build config position).result = .ok ops)
    (hseeded : ∀ slot ∈ s.subqueries config.policy, slot.Seeded config ⟨s.name, position⟩) :
    Operator.seedsOf ops = config.seedsFor
      ((s.subqueries config.policy).flatMap (Slot.sampleSeeds config.policy) ++ s.ownSeeds) := by
  obtain ⟨kind, labels⟩ := s
  obtain ⟨own, hown, rfl⟩ := Step.lower_eq_ok.1 h
  have hbinding : Operator.seedsOf (Step.binding ⟨kind, labels⟩) = [] := by
    cases labels <;> rfl
  rw [Operator.seedsOf_append, hbinding, List.append_nil]
  cases kind with
  | elementary s =>
    exact ElementaryStep.seeds_of_lower (StepKind.lowerIn_elementary_eq_ok.1 hown)
  | modulated m => exact ModulatedStep.seeds_of_lowerIn hown hseeded

/-- The seeds of steps are those of one after the other. -/
theorem seedsOf_flatten_of_build {scope : Position} {steps : List (Step × Nat)}
    {parts : List (List Operator)}
    (h : List.Forall₂ (fun x ops => (x.1.build config (scope.child x.2)).result = .ok ops) steps
      parts)
    (hseeded : ∀ x ∈ steps, ∀ slot ∈ x.1.subqueries config.policy,
      slot.Seeded config ⟨x.1.name, scope.child x.2⟩) :
    Operator.seedsOf parts.flatten = config.seedsFor ((steps.map Prod.fst).flatMap fun s =>
      (s.subqueries config.policy).flatMap (Slot.sampleSeeds config.policy) ++ s.ownSeeds) := by
  induction h with
  | nil => rfl
  | cons hx _ ih =>
    obtain ⟨hhead, htail⟩ := List.forall_mem_cons.1 hseeded
    rw [List.flatten_cons, Operator.seedsOf_append, List.map_cons, List.flatMap_cons,
      Config.seedsFor_append, Step.seeds_of_build hx hhead, ih htail]

end Provenance

/-! ## Steps at all depths -/

/-- The step stands in a traversal or, at any depth, in the sub-traversals of its steps. Group values
are left out, since they are not lowered as subqueries. -/
inductive Step.Inside (s : Step) : Traversal → Prop
  | here {t : Traversal} (h : s ∈ t.steps) : Inside s t
  | within {t t' : Traversal} {s' : Step} {m : ModulatedStep} (mem : s' ∈ t.steps)
    (kind : s'.kind = .modulated m) (modulator : t' ∈ m.modulators) (inside : Inside s t') :
    Inside s t

/-- Selecting a tag first adds only that step. -/
theorem Step.inside_rootedAt {s : Step} {t : Traversal} {tag : String}
    (h : s.Inside (t.rootedAt tag)) : s = Traversal.selectTag tag ∨ s.Inside t := by
  unfold Traversal.rootedAt at h
  split at h
  · exact .inr h
  · cases h with
    | here h =>
      rcases List.mem_cons.1 h with rfl | h
      · exact .inl rfl
      · exact .inr (.here h)
    | within mem kind modulator inside =>
      rcases List.mem_cons.1 mem with rfl | mem
      · obtain rfl := StepKind.modulated.inj kind
        cases modulator
      · exact .inr (.within mem kind modulator inside)

/-- A seed that is lowered is that of a sample step of the query. -/
theorem Traversal.exists_of_mem_sampleSeeds {policy : ModulatorPolicy} (t : Traversal) :
    ∀ seed ∈ t.sampleSeeds policy, ∃ s x, Step.Inside s t ∧
      s.kind = .modulated (.sample x) ∧ x.seed = seed := by
  induction t, Position.root using @induction_on_subqueries policy with
  | h t scope ih =>
    intro seed hseed
    rw [sampleSeeds_eq] at hseed
    obtain ⟨s, hs, hseed⟩ := List.mem_flatMap.1 hseed
    obtain ⟨x, hx, rfl⟩ : ∃ x ∈ t.steps.zipIdx, x.1 = s :=
      List.mem_map.1 (show s ∈ t.steps.zipIdx.map Prod.fst by rwa [List.zipIdx_map_fst])
    obtain ⟨⟨kind, labels⟩, i⟩ := x
    cases kind with
    | elementary s => cases hseed
    | modulated m =>
      rcases List.mem_append.1 hseed with hinner | hown
      · obtain ⟨slot, hslot, hseed⟩ := List.mem_flatMap.1 hinner
        obtain ⟨s, y, hinside, hkind, hy⟩ := ih _ hx slot hslot seed hseed
        refine ⟨s, y, ?_, hkind, hy⟩
        rcases Step.inside_rootedAt hinside with rfl | hinside
        · cases hkind
        · exact .within hs rfl (ModulatedStep.modulator_of_mem_subqueries hslot) hinside
      · cases m with
        | sample y => exact ⟨_, y, .here hs, rfl, (List.mem_singleton.1 hown).symm⟩
        | _ => cases hown

namespace Traversal

/-- **The seeds of a plan are those of the sample steps**, with the default seed where there is
none. -/
theorem seeds_of_build (policy : ModulatorPolicy) (d : UInt64) (t : Traversal) (scope : Position) :
    ∀ plan, (t.build ⟨policy, d, false⟩ scope).result = .ok plan →
      plan.seeds = Config.seedsFor ⟨policy, d, false⟩ (t.sampleSeeds policy) := by
  induction t, scope using @induction_on_subqueries policy with
  | h t scope ih =>
    intro plan hplan
    rw [build_eq_ofSteps rfl] at hplan
    obtain ⟨parts, hparts, hplan⟩ := Traced.result_bind_eq_ok.1 hplan
    obtain rfl := Except.ok.inj hplan
    have hseeds := seedsOf_flatten_of_build (Traced.traverse_eq_ok.1 hparts) ih
    rwa [List.zipIdx_map_fst, ← sampleSeeds_eq] at hseeds

theorem alike_build (policy : ModulatorPolicy) (d d' : UInt64) (t : Traversal) (scope : Position) :
    (t.build ⟨policy, d, false⟩ scope).AlikeUpTo Plan.withoutSeeds
      (t.build ⟨policy, d', false⟩ scope) := by
  rw [build_of_sequential rfl, build_of_sequential rfl]
  exact Builder.alike_ofDepth t.depth t scope

/-- **The default seed reaches only the samples without a seed.** Under two default seeds a query fails
alike, or is lowered to plans that are the same but for seeds. The seeds of each plan are those of the
sample steps in order, with its default seed where a step has none. If every sample step has a seed,
nothing depends on the default. -/
theorem build_of_seed (t : Traversal) (policy : ModulatorPolicy) (d d' : UInt64)
    (scope : Position) :
    ((∃ e, (t.build ⟨policy, d, false⟩ scope).result = .error e ∧
        (t.build ⟨policy, d', false⟩ scope).result = .error e) ∨
      ∃ plan plan', (t.build ⟨policy, d, false⟩ scope).result = .ok plan ∧
        (t.build ⟨policy, d', false⟩ scope).result = .ok plan' ∧
        plan.withoutSeeds = plan'.withoutSeeds ∧
        plan.seeds = (t.sampleSeeds policy).map (fun seed => seed.getD d) ∧
        plan'.seeds = (t.sampleSeeds policy).map fun seed => seed.getD d') ∧
    ((∀ s x, Step.Inside s t → s.kind = .modulated (.sample x) → x.seed.isSome) →
      t.build ⟨policy, d, false⟩ scope = t.build ⟨policy, d', false⟩ scope) := by
  have halike := t.alike_build policy d d' scope
  have hseeds := t.seeds_of_build policy d scope
  have hseeds' := t.seeds_of_build policy d' scope
  generalize t.build ⟨policy, d, false⟩ scope = x at halike hseeds ⊢
  generalize t.build ⟨policy, d', false⟩ scope = y at halike hseeds' ⊢
  cases halike with
  | error => exact ⟨.inl ⟨_, rfl, rfl⟩, fun _ => rfl⟩
  | @ok log plan plan' hplans =>
    have hplan := hseeds plan rfl
    have hplan' := hseeds' plan' rfl
    refine ⟨.inr ⟨plan, plan', rfl, rfl, hplans, hplan, hplan'⟩, fun hseeded => ?_⟩
    have hsame : plan.seeds = plan'.seeds := by
      rw [hplan, hplan']
      refine List.map_congr_left fun seed hseed => ?_
      obtain ⟨s, x, hinside, hkind, rfl⟩ := t.exists_of_mem_sampleSeeds seed hseed
      obtain ⟨seed, hx⟩ := Option.isSome_iff_exists.1 (hseeded s x hinside hkind)
      rw [hx]
      rfl
    have heq : plan = plan' :=
      congrArg Plan.mk (Operator.eq_of_eachWithoutSeeds (Plan.mk.inj hplans) hsame)
    rw [heq]

/-- Draws `2 ^ 52` records, weighted by the number of the neighbours in a draw of as many. -/
def drawTwice (seed : Option UInt64) : Traversal :=
  let amount : Binary64 := ⟨0x4330000000000000⟩
  let weight := ((identity.outgoing []).modulated (.sample ⟨amount, some 5, none⟩)).count
  identity.modulated (.sample ⟨amount, seed, some weight⟩)

theorem exists_plan_of_drawTwice (d : UInt64) :
    ∃ plan, ((drawTwice none).build ⟨.strict, d, false⟩ .root).result = .ok plan ∧
      plan.seeds = [5, d] := by
  -- rounding does not unfold, so the size is decided apart and the steps are lowered by their rules
  have hamount : SampleAmount.ofNumber? ⟨0x4330000000000000⟩ = some (.count 4503599627370496) := by
    decide +kernel
  let config : Config := ⟨.strict, d, false⟩
  let inner : SampleStep := ⟨⟨0x4330000000000000⟩, some 5, none⟩
  let weight : Traversal := ((identity.outgoing []).modulated (.sample inner)).count
  let outer : SampleStep := ⟨⟨0x4330000000000000⟩, none, some weight⟩
  let scope : Position := Position.root.child 0
  let column : Alias := .allocate .subquery "" scope 0
  have hinner : (Step.lower .unused config (.ofKind (.modulated (.sample inner)))
      ((scope.child 0).child 1)).result = .ok [.sample (.count 4503599627370496) 5 "@"] := by
    refine Step.lower_eq_ok.2 ⟨_, SampleStep.lower_eq_ok.2 ⟨_, ⟨none, "@"⟩, hamount, ?_, rfl⟩, rfl⟩
    cbv
  obtain ⟨plan, hplan, hseeds⟩ :
      ∃ plan, (Builder.ofDepth config 0 weight (scope.child 0)).result = .ok plan ∧
        plan.seeds = [5] :=
    ⟨_, Builder.ofSteps_eq_ok.2 ⟨_, .cons rfl (.cons hinner (.cons rfl .nil)), rfl⟩, rfl⟩
  have hsize : weight.extract.size = 1 := by cbv
  have hr : Context.Resolves ⟨.ofDepth config 0, config, ⟨"sample", scope⟩⟩ weight column 0
      weight.extract.single? ⟨some (.apply plan.operators .inner (some column)), column.expr⟩ := by
    rw [show weight.extract.single? = none by cbv]
    exact .subquery plan hplan
  have houter : (Step.lower (.ofDepth config 0) config (.ofKind (.modulated (.sample outer)))
      scope).result = .ok [.apply plan.operators .inner (some column),
        .sample (.count 4503599627370496) d column.expr] :=
    Step.lower_eq_ok.2 ⟨_, SampleStep.lower_eq_ok.2
      ⟨_, _, hamount, Context.resolve_eq_ok.2 ⟨hsize, hr⟩, rfl⟩, rfl⟩
  rw [build_of_sequential rfl]
  refine ⟨_, Builder.ofSteps_eq_ok.2 ⟨_, .cons houter .nil, rfl⟩, ?_⟩
  change plan.seeds ++ [d] = [5, d]
  rw [hseeds, List.singleton_append]

theorem build_of_seed_drawTwice :
    (∃ plan plan', ((drawTwice none).build ⟨.strict, 7, false⟩ .root).result = .ok plan ∧
      ((drawTwice none).build ⟨.strict, 8, false⟩ .root).result = .ok plan' ∧
      plan.withoutSeeds = plan'.withoutSeeds ∧ plan.seeds = [5, 7] ∧ plan'.seeds = [5, 8]) ∧
    (∀ s x, Step.Inside s (drawTwice (some 4)) → s.kind = .modulated (.sample x) →
      x.seed.isSome) ∧
    (drawTwice (some 4)).build ⟨.strict, 7, false⟩ .root =
      (drawTwice (some 4)).build ⟨.strict, 8, false⟩ .root := by
  have hseeded : ∀ s x, Step.Inside s (drawTwice (some 4)) → s.kind = .modulated (.sample x) →
      x.seed.isSome := by
    intro s x hinside hkind
    cases hinside with
    | here h =>
      obtain rfl := List.mem_singleton.1 h
      cases hkind
      rfl
    | within mem kind modulator inside =>
      obtain rfl := List.mem_singleton.1 mem
      obtain rfl := StepKind.modulated.inj kind
      obtain rfl := List.mem_singleton.1 modulator
      cases inside with
      | here h =>
        rcases List.mem_cons.1 h with rfl | h
        · cases hkind
        rcases List.mem_cons.1 h with rfl | h
        · cases hkind
          rfl
        · obtain rfl := List.mem_singleton.1 h
          cases hkind
      | within mem kind modulator inside =>
        rcases List.mem_cons.1 mem with rfl | mem
        · cases kind
        rcases List.mem_cons.1 mem with rfl | mem
        · obtain rfl := StepKind.modulated.inj kind
          cases modulator
        · obtain rfl := List.mem_singleton.1 mem
          cases kind
  obtain ⟨plan, hplan, hseeds⟩ := exists_plan_of_drawTwice 7
  obtain ⟨plan', hplan', hseeds'⟩ := exists_plan_of_drawTwice 8
  refine ⟨⟨plan, plan', hplan, hplan', ?_, hseeds, hseeds'⟩, hseeded,
    (build_of_seed (drawTwice (some 4)) .strict 7 8 .root).2 hseeded⟩
  obtain ⟨⟨e, he, -⟩ | ⟨plan, plan', hp, hp', hplans, -, -⟩, -⟩ :=
    build_of_seed (drawTwice none) .strict 7 8 .root
  · rw [he] at hplan
    cases hplan
  · rw [hplan] at hp
    rw [hplan'] at hp'
    obtain rfl := Except.ok.inj hp
    obtain rfl := Except.ok.inj hp'
    exact hplans

end Traversal
end TraversalPlan

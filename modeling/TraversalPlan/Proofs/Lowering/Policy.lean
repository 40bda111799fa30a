import TraversalPlan.Proofs.Lowering.Output

/-!
# Policies of handing out modulators

A single modulator for every operand is an allowance over a modulator for each, and handing the
modulators out over and over is one over both. Where a policy has a modulator for an operand, the laxer
one has the same, so a query that is lowered under a policy is lowered to the same plan under a laxer
one. The laxest never runs out (**`build_of_policy`**).

* `ModulatorPolicy.Covers`: a policy has what another has.
* `Traced.Extends`, `Traced.FailsWithin`: one computation goes like another as long as that succeeds;
  a computation fails only in some ways. Both go through sequences and lists.
* `ModulatedStep.extends_lowerIn`, `ModulatedStep.failsWithin_lowerIn`: each rule keeps them.
* `Traversal.buildEnding`: the steps of a query that are lowered at the same time end in any order.
-/

namespace TraversalPlan

/-! ## Computations that go alike -/

namespace Traced

variable {ε α β : Type}

/-- If the first computation succeeds, the second is the same. -/
def Extends (x y : Traced ε α) : Prop := ∀ a, x.result = .ok a → y = x

namespace Extends

theorem refl (x : Traced ε α) : x.Extends x := fun _ _ => rfl

theorem bind {x y : Traced ε α} {f g : α → Traced ε β} (hx : x.Extends y)
    (hf : ∀ a, (f a).Extends (g a)) : (x >>= f).Extends (y >>= g) := by
  intro b hb
  obtain ⟨a, ha, hfa⟩ := result_bind_eq_ok.1 hb
  rw [hx a ha, bind_of_ok ha, bind_of_ok ha, hf a b hfa]

theorem traverse {f g : α → Traced ε β} (h : ∀ a, (f a).Extends (g a)) (as : List α) :
    (Traced.traverse f as).Extends (Traced.traverse g as) := by
  induction as with
  | nil => exact refl _
  | cons a as ih => exact (h a).bind fun b => ih.bind fun bs => refl _

end Extends

/-- The computation fails only in some ways. -/
def FailsWithin (P : ε → Prop) (x : Traced ε α) : Prop := ∀ e, x.result = .error e → P e

namespace FailsWithin

variable {P : ε → Prop}

theorem pure (a : α) : (Pure.pure a : Traced ε α).FailsWithin P := nofun

theorem emit (events : List Event) : (Traced.emit events : Traced ε Unit).FailsWithin P := nofun

theorem bind {x : Traced ε α} {f : α → Traced ε β} (hx : x.FailsWithin P)
    (hf : ∀ a, x.result = .ok a → (f a).FailsWithin P) : (x >>= f).FailsWithin P := by
  intro e he
  rcases result_bind_eq_error.1 he with he | ⟨a, ha, he⟩
  · exact hx e he
  · exact hf a ha e he

theorem traverse {f : α → Traced ε β} (h : ∀ a, (f a).FailsWithin P) (as : List α) :
    (Traced.traverse f as).FailsWithin P := by
  induction as with
  | nil => exact pure []
  | cons a as ih => exact (h a).bind fun _ _ => ih.bind fun _ _ => pure _

end FailsWithin
end Traced

open Traced

/-! ## Modulators -/

/-- Where the first policy has a modulator, the second has the same one. -/
def ModulatorPolicy.Covers (p q : ModulatorPolicy) : Prop :=
  ∀ bys i t, Modulators.at? bys p i = some t → Modulators.at? bys q i = some t

namespace Modulators

theorem at?_strict {bys : List Traversal} (h : bys ≠ []) (i : Nat) :
    at? bys .strict i = bys[i]? := by
  match bys with
  | [] => exact absurd rfl h
  | [_] => rfl
  | _ :: _ :: _ => rfl

theorem at?_cycle {bys : List Traversal} (h : bys ≠ []) (i : Nat) :
    at? bys .cycle i = bys[i % bys.length]? := by
  match bys with
  | [] => exact absurd rfl h
  | [_] => rfl
  | _ :: _ :: _ => rfl

theorem isSome_at?_cycle (bys : List Traversal) (i : Nat) : (at? bys .cycle i).isSome := by
  by_cases h : bys = []
  · rw [h]
    rfl
  · have hlt : i % bys.length < bys.length := Nat.mod_lt _ (List.length_pos_of_ne_nil h)
    rw [at?_cycle h, List.getElem?_eq_getElem hlt, Option.isSome_some]

/-- One modulator for every operand is one for the first in particular. -/
theorem covers_strict_broadcast : ModulatorPolicy.Covers .strict .broadcast := by
  intro bys i t ht
  match bys with
  | [] => exact ht
  | [only] =>
    rw [at?_strict (List.cons_ne_nil _ _)] at ht
    obtain ⟨hi, rfl⟩ := List.getElem?_eq_some_iff.1 ht
    simp [at?]
  | _ :: _ :: _ => exact ht

/-- The modulators that are handed out once are the first of those handed out over and over. -/
theorem covers_broadcast_cycle : ModulatorPolicy.Covers .broadcast .cycle := by
  intro bys i t ht
  match bys with
  | [] => exact ht
  | [only] =>
    obtain rfl := Option.some.inj ht
    rw [at?_cycle (List.cons_ne_nil _ _), List.length_singleton, Nat.mod_one]
    rfl
  | first :: second :: rest =>
    have hget : (first :: second :: rest)[i]? = some t := ht
    obtain ⟨hi, -⟩ := List.getElem?_eq_some_iff.1 hget
    rw [at?_cycle (List.cons_ne_nil _ _), Nat.mod_eq_of_lt hi]
    exact ht

end Modulators

namespace WherePredicateStep

variable {p q : ModulatorPolicy}

/-- A laxer policy gives the same slots, unless the modulators run out. -/
theorem slotsFrom_of_covers (h : p.Covers q) (bys : List Traversal) (i number : Nat)
    (tags : List String) :
    slotsFrom bys q i number tags = slotsFrom bys p i number tags ∨
      (slotsFrom bys p i number tags).length < tags.length := by
  induction tags generalizing i number with
  | nil => exact .inl rfl
  | cons tag tags ih =>
    rw [slotsFrom, slotsFrom]
    cases ht : Modulators.at? bys p i with
    | none => exact .inr (Nat.zero_lt_succ _)
    | some t =>
      rw [h bys i t ht]
      exact (ih _ _).imp (congrArg _) Nat.succ_lt_succ

theorem length_slotsFrom_cycle (bys : List Traversal) (i number : Nat) (tags : List String) :
    (slotsFrom bys .cycle i number tags).length = tags.length := by
  induction tags generalizing i number with
  | nil => rfl
  | cons tag tags ih =>
    obtain ⟨t, ht⟩ := Option.isSome_iff_exists.1 (Modulators.isSome_at?_cycle bys i)
    rw [slotsFrom, ht]
    exact congrArg Nat.succ (ih _ _)

end WherePredicateStep

namespace ModulatedStep

/-- A laxer policy gives the same slots, unless the step runs out of modulators. -/
theorem slots_of_covers {p q : ModulatorPolicy} (h : p.Covers q) (m : ModulatedStep) :
    m.slots q = m.slots p ∨ ∀ (c : Context) (es : List String) (o : Operator),
      es.length = (m.slots p).length → (m.terminal c es).result ≠ .ok o := by
  cases m with
  | wherePredicate s =>
    refine (WherePredicateStep.slotsFrom_of_covers h s.bys 0 0 _).imp_right fun hshort => ?_
    intro c es o hes ho
    rw [← WherePredicateStep.slots, List.length_cons] at hshort
    rw [slots] at hes
    rw [terminal, if_pos (hes ▸ hshort)] at ho
    cases ho
  | _ => exact .inl rfl

end ModulatedStep

/-! ## Laxer policies -/

section Extends

variable {build build' : Builder} {config config' : Config} {p q : ModulatorPolicy} {seed : UInt64}
  {parallel : Bool} {step : StepRef}

/-- Whatever one way of lowering subqueries can lower, the other lowers alike. -/
def Builder.Extends (build build' : Builder) : Prop :=
  ∀ t scope, (build t scope).Extends (build' t scope)

theorem Context.extends_fill (hbuild : build.Extends build') (s : Slot) :
    (fill ⟨build, config, step⟩ s).Extends (fill ⟨build', config', step⟩ s) := by
  refine (Extends.refl _).bind fun e => ?_
  cases e with
  | some e => exact .refl _
  | none => exact (Extends.refl _).bind fun _ => (hbuild _ _).bind fun _ => .refl _

theorem Traversal.extends_filterOperator (hbuild : build.Extends build') (t : Traversal)
    (filter : String → String) (join : JoinKind) :
    (t.filterOperator ⟨build, config, step⟩ filter join).Extends
      (t.filterOperator ⟨build', config', step⟩ filter join) := by
  refine (Extends.refl _).bind fun e => ?_
  cases e with
  | some e => exact .refl _
  | none => exact (Extends.refl _).bind fun _ => (hbuild _ _).bind fun _ => .refl _

namespace ModulatedStep

theorem extends_terminal (hbuild : build.Extends build') (m : ModulatedStep) (es : List String) :
    (m.terminal ⟨build, ⟨p, seed, parallel⟩, step⟩ es).Extends
      (m.terminal ⟨build', ⟨q, seed, parallel⟩, step⟩ es) := by
  cases m with
  | whereTraversal t => exact t.extends_filterOperator hbuild _ _
  | not t => exact t.extends_filterOperator hbuild _ _
  | _ => exact .refl _

/-- **A laxer policy does the same in each rule** as long as that succeeds. -/
theorem extends_lowerIn (hbuild : build.Extends build') (hpolicy : p.Covers q)
    (m : ModulatedStep) :
    (m.lowerIn ⟨build, ⟨p, seed, parallel⟩, step⟩).Extends
      (m.lowerIn ⟨build', ⟨q, seed, parallel⟩, step⟩) := by
  rcases m.slots_of_covers hpolicy with hslots | hshort
  · rw [lowerIn_eq, lowerIn_eq]
    unfold lowerParts
    dsimp only
    rw [hslots]
    cases m.fault? with
    | some fault => exact .refl _
    | none =>
      exact (Extends.traverse (Context.extends_fill hbuild) _).bind fun _ =>
        (extends_terminal hbuild m _).bind fun _ => .refl _
  · intro ops hops
    obtain ⟨-, resolved, o, hresolved, ho, -⟩ := lowerIn_eq_ok.1 hops
    refine absurd ho (hshort _ _ o ?_)
    rw [List.length_map, hresolved.length_eq]

end ModulatedStep

theorem StepKind.extends_lowerIn (hbuild : build.Extends build') (hpolicy : p.Covers q)
    (k : StepKind) :
    (k.lowerIn ⟨build, ⟨p, seed, parallel⟩, step⟩).Extends
      (k.lowerIn ⟨build', ⟨q, seed, parallel⟩, step⟩) := by
  cases k with
  | elementary s => exact .refl _
  | modulated m => exact m.extends_lowerIn hbuild hpolicy

theorem Step.extends_lower (hbuild : build.Extends build') (hpolicy : p.Covers q) (s : Step)
    (position : Position) :
    (s.lower build ⟨p, seed, parallel⟩ position).Extends
      (s.lower build' ⟨q, seed, parallel⟩ position) :=
  (s.kind.extends_lowerIn hbuild hpolicy).bind fun _ => (Extends.refl _).bind fun _ => .refl _

namespace Builder

theorem extends_ofSteps (hbuild : build.Extends build') (hpolicy : p.Covers q) :
    (ofSteps build ⟨p, seed, parallel⟩).Extends (ofSteps build' ⟨q, seed, parallel⟩) :=
  fun _ _ => (Extends.traverse (fun _ => Step.extends_lower hbuild hpolicy _ _) _).bind
    fun _ => .refl _

/-- A laxer policy does the same at every nesting depth. -/
theorem extends_ofDepth (hpolicy : p.Covers q) (depth : Nat) :
    (ofDepth ⟨p, seed, parallel⟩ depth).Extends (ofDepth ⟨q, seed, parallel⟩ depth) := by
  induction depth with
  | zero => exact extends_ofSteps (fun _ _ => .refl _) hpolicy
  | succ depth ih => exact extends_ofSteps ih hpolicy

end Builder
end Extends

/-! ## Running out -/

section FailsWithin

/-- A failure other than that the modulators have run out. -/
def LoweringError.NotExhausted (e : LoweringError) : Prop := ∀ n, e.fault ≠ .modulatorsExhausted n

/-- Lowering subqueries never runs out of modulators. -/
def Builder.NeverExhausted (build : Builder) : Prop :=
  ∀ t scope, (build t scope).FailsWithin LoweringError.NotExhausted

variable {c : Context}

namespace Context

theorem failsWithin_fail {α : Type} {fault : Fault} (h : ∀ n, fault ≠ .modulatorsExhausted n) :
    (c.fail fault : Lowering α).FailsWithin LoweringError.NotExhausted := by
  rintro e he n
  obtain rfl := Except.error.inj he
  exact h n

theorem failsWithin_one (x : Extraction) :
    (c.one x).FailsWithin LoweringError.NotExhausted := by
  unfold one
  split
  · exact .pure _
  · exact failsWithin_fail nofun

theorem failsWithin_fill (hbuild : c.build.NeverExhausted) (s : Slot) :
    (c.fill s).FailsWithin LoweringError.NotExhausted := by
  refine (failsWithin_one _).bind fun e _ => ?_
  cases e with
  | some e => exact .pure _
  | none => exact (FailsWithin.emit _).bind fun _ _ => (hbuild _ _).bind fun _ _ => .pure _

end Context

theorem Traversal.failsWithin_filterOperator (hbuild : c.build.NeverExhausted) (t : Traversal)
    (filter : String → String) (join : JoinKind) :
    (t.filterOperator c filter join).FailsWithin LoweringError.NotExhausted := by
  refine (Context.failsWithin_one _).bind fun e _ => ?_
  cases e with
  | some e => exact .pure _
  | none => exact (FailsWithin.emit _).bind fun _ _ => (hbuild _ _).bind fun _ _ => .pure _

theorem GroupStep.failsWithin_aggregate (value : Traversal) (a : Alias) :
    (aggregate c value a).FailsWithin LoweringError.NotExhausted := by
  obtain ⟨kind, source, haggregate⟩ := aggregate_eq value
  rw [haggregate]
  cases hfault : valueFault? value with
  | some fault =>
    exact Context.failsWithin_fail fun n hn => valueFault?_ne value n (hfault.trans (congrArg some hn))
  | none => exact .pure _

namespace ModulatedStep

theorem fault?_ne (m : ModulatedStep) (n : Nat) : m.fault? ≠ some (.modulatorsExhausted n) := by
  cases m <;> grind [fault?]

theorem failsWithin_terminal (hbuild : c.build.NeverExhausted) (m : ModulatedStep)
    {es : List String} (hes : es.length = (m.slots .cycle).length) :
    (m.terminal c es).FailsWithin LoweringError.NotExhausted := by
  cases m with
  | sample s =>
    rw [terminal]
    split
    · exact Context.failsWithin_fail fun n hn => by cases hn
    · exact .pure _
  | group s =>
    exact (FailsWithin.traverse (fun _ => GroupStep.failsWithin_aggregate _ _) _).bind
      fun _ _ => .pure _
  | wherePredicate s =>
    rw [slots, WherePredicateStep.slots, WherePredicateStep.length_slotsFrom_cycle,
      List.length_cons] at hes
    rw [terminal, if_neg (by omega)]
    exact .pure _
  | whereTraversal t => exact t.failsWithin_filterOperator hbuild _ _
  | not t => exact t.failsWithin_filterOperator hbuild _ _
  | _ => exact .pure _

/-- **No rule runs out of modulators** if these are handed out over and over. -/
theorem failsWithin_lowerIn (hbuild : c.build.NeverExhausted) (hpolicy : c.config.policy = .cycle)
    (m : ModulatedStep) : (m.lowerIn c).FailsWithin LoweringError.NotExhausted := by
  rw [lowerIn_eq, lowerParts, hpolicy]
  cases hfault : m.fault? with
  | some fault =>
    refine Context.failsWithin_fail fun n hn => m.fault?_ne n ?_
    rw [hfault, hn]
  | none =>
    refine (FailsWithin.traverse (Context.failsWithin_fill hbuild) _).bind fun resolved hok => ?_
    refine (failsWithin_terminal hbuild m ?_).bind fun _ _ => .pure _
    rw [List.length_map, length_of_traverse hok]

end ModulatedStep

theorem ElementaryStep.ne_of_lower_eq_error {s : ElementaryStep} {position : Position}
    {fault : Fault} (h : s.lower position = .error fault) (n : Nat) :
    fault ≠ .modulatorsExhausted n := by
  rintro rfl
  rw [lower_eq_error] at h
  cases s with
  | range lower upper =>
    rw [fault?] at h
    split at h <;> cases h
  | _ => cases h

theorem StepKind.failsWithin_lowerIn (hbuild : c.build.NeverExhausted)
    (hpolicy : c.config.policy = .cycle) (k : StepKind) :
    (k.lowerIn c).FailsWithin LoweringError.NotExhausted := by
  cases k with
  | elementary s =>
    rw [lowerIn]
    cases hs : s.lower c.step.position with
    | ok operators => exact .pure _
    | error fault => exact Context.failsWithin_fail (ElementaryStep.ne_of_lower_eq_error hs)
  | modulated m => exact m.failsWithin_lowerIn hbuild hpolicy

theorem Step.failsWithin_lower {build : Builder} (hbuild : build.NeverExhausted) {config : Config}
    (hpolicy : config.policy = .cycle) (s : Step) (position : Position) :
    (s.lower build config position).FailsWithin LoweringError.NotExhausted :=
  (s.kind.failsWithin_lowerIn (c := ⟨build, config, _⟩) hbuild hpolicy).bind
    fun _ _ => (FailsWithin.emit _).bind fun _ _ => .pure _

namespace Builder

theorem neverExhausted_ofSteps {build : Builder} (hbuild : build.NeverExhausted) {config : Config}
    (hpolicy : config.policy = .cycle) : (ofSteps build config).NeverExhausted :=
  fun _ _ => (FailsWithin.traverse (fun _ => Step.failsWithin_lower hbuild hpolicy _ _) _).bind
    fun _ _ => .pure _

theorem neverExhausted_ofDepth {config : Config} (hpolicy : config.policy = .cycle) (depth : Nat) :
    (ofDepth config depth).NeverExhausted := by
  induction depth with
  | zero => exact neverExhausted_ofSteps (fun _ _ => .pure _) hpolicy
  | succ depth ih => exact neverExhausted_ofSteps ih hpolicy

end Builder
end FailsWithin

/-! ## Whole queries -/

/-- The failure of gathered outcomes is that of one of them. -/
theorem mem_of_gather_eq_error {ε α : Type} {order : List Nat} {outcomes : List (Except ε α)} {e : ε}
    (h : gather order outcomes = .error e) : .error e ∈ outcomes := by
  unfold gather at h
  dsimp only at h
  split at h
  · rename_i e' he'
    obtain rfl := Except.error.inj h
    obtain ⟨i, -, hi⟩ := List.exists_of_findSome?_eq_some he'
    cases hoi : outcomes[i]? with
    | none => simp [hoi] at hi
    | some r =>
      rw [hoi] at hi
      cases r with
      | ok a => cases hi
      | error e' =>
        obtain rfl := Option.some.inj hi
        exact List.mem_of_getElem? hoi
  · -- nobody failed among those that are listed, so the first failure of all is taken
    clear * - h
    induction outcomes with
    | nil => cases h
    | cons r outcomes ih =>
      cases r with
      | error e' =>
        obtain rfl := Except.error.inj h
        exact List.mem_cons_self
      | ok a =>
        refine List.mem_cons_of_mem _ (ih ?_)
        rw [List.mapM_cons] at h
        cases hrest : outcomes.mapM id with
        | ok as =>
          rw [hrest] at h
          cases h
        | error e' =>
          rw [hrest] at h
          exact h

namespace Traversal

variable {p q : ModulatorPolicy} {seed : UInt64} {parallel : Bool}

/-! ### Steps that are lowered at the same time -/

theorem result_buildFinishing (order : List Nat) (config : Config) (t : Traversal)
    (scope : Position) :
    (t.buildFinishing order config scope).result =
      (gather order ((t.outcomes config scope).map Traced.result)).map fun parts =>
        ⟨parts.flatten⟩ := rfl

/-- Under a laxer policy the steps come to the same if all of them succeed. -/
theorem outcomes_of_gather (hpolicy : p.Covers q) {order : List Nat} {t : Traversal}
    {scope : Position} {parts : List (List Operator)}
    (h : gather order ((t.outcomes ⟨p, seed, parallel⟩ scope).map Traced.result) = .ok parts) :
    t.outcomes ⟨q, seed, parallel⟩ scope = t.outcomes ⟨p, seed, parallel⟩ scope := by
  have hok := gather_eq_ok.1 h
  refine List.map_congr_left fun x hx => ?_
  obtain ⟨ops, -, hops⟩ := List.mem_map.1 (hok ▸ List.mem_map_of_mem (List.mem_map_of_mem hx))
  exact Step.extends_lower (Builder.extends_ofDepth hpolicy _) hpolicy _ _ ops hops.symm

theorem extends_buildFinishing (hpolicy : p.Covers q) (order order' : List Nat) (t : Traversal)
    (scope : Position) :
    (t.buildFinishing order ⟨p, seed, parallel⟩ scope).Extends
      (t.buildFinishing order' ⟨q, seed, parallel⟩ scope) := by
  intro plan hplan
  rw [result_buildFinishing] at hplan
  cases hparts : gather order ((t.outcomes ⟨p, seed, parallel⟩ scope).map Traced.result) with
  | error e =>
    rw [hparts] at hplan
    cases hplan
  | ok parts =>
    have houtcomes := outcomes_of_gather hpolicy hparts
    have hresult : (t.buildFinishing order' ⟨q, seed, parallel⟩ scope).result =
        (t.buildFinishing order ⟨p, seed, parallel⟩ scope).result := by
      rw [result_buildFinishing, result_buildFinishing, houtcomes, hparts,
        gather_eq_ok.2 (gather_eq_ok.1 hparts)]
    have hlog : (t.buildFinishing order' ⟨q, seed, parallel⟩ scope).log =
        (t.buildFinishing order ⟨p, seed, parallel⟩ scope).log :=
      congrArg (List.flatMap Traced.log) houtcomes
    exact Traced.ext hlog hresult

theorem failsWithin_buildFinishing (order : List Nat) (t : Traversal) (scope : Position) :
    (t.buildFinishing order ⟨.cycle, seed, parallel⟩ scope).FailsWithin
      LoweringError.NotExhausted := by
  intro e he
  rw [result_buildFinishing] at he
  cases hgather : gather order ((t.outcomes ⟨.cycle, seed, parallel⟩ scope).map Traced.result) with
  | ok parts =>
    rw [hgather] at he
    cases he
  | error e' =>
    rw [hgather] at he
    obtain rfl := Except.error.inj he
    obtain ⟨y, hy, hyerror⟩ := List.mem_map.1 (mem_of_gather_eq_error hgather)
    obtain ⟨x, -, rfl⟩ := List.mem_map.1 hy
    exact Step.failsWithin_lower (Builder.neverExhausted_ofDepth rfl _) rfl _ _ _ hyerror

/-! ### Any order of ending -/

/-- **A laxer policy lowers to the same plan**, in whatever order steps end. -/
theorem extends_buildEnding (hpolicy : p.Covers q) (order order' : List Nat) (t : Traversal)
    (scope : Position) :
    (t.buildEnding order ⟨p, seed, parallel⟩ scope).Extends
      (t.buildEnding order' ⟨q, seed, parallel⟩ scope) := by
  unfold buildEnding
  split
  · exact extends_buildFinishing hpolicy order order' t scope
  · exact Builder.extends_ofDepth hpolicy _ t scope

theorem failsWithin_buildEnding (order : List Nat) (t : Traversal) (scope : Position) :
    (t.buildEnding order ⟨.cycle, seed, parallel⟩ scope).FailsWithin
      LoweringError.NotExhausted := by
  unfold buildEnding
  split
  · exact failsWithin_buildFinishing order t scope
  · exact Builder.neverExhausted_ofDepth rfl _ t scope

/-- **What a stricter policy lowers, a laxer one lowers to the same plan**, and the laxest never runs
out of modulators. If steps are lowered at the same time, this is so in whatever order they end. -/
theorem build_of_policy (t : Traversal) (scope : Position) (seed : UInt64) (parallel : Bool)
    (order order' : List Nat) :
    (∀ plan, (t.buildEnding order ⟨.strict, seed, parallel⟩ scope).result = .ok plan →
      (t.buildEnding order' ⟨.broadcast, seed, parallel⟩ scope).result = .ok plan) ∧
    (∀ plan, (t.buildEnding order ⟨.broadcast, seed, parallel⟩ scope).result = .ok plan →
      (t.buildEnding order' ⟨.cycle, seed, parallel⟩ scope).result = .ok plan) ∧
    ∀ e, (t.buildEnding order ⟨.cycle, seed, parallel⟩ scope).result = .error e →
      ∀ n, e.fault ≠ .modulatorsExhausted n := by
  refine ⟨fun plan h => ?_, fun plan h => ?_, failsWithin_buildEnding order t scope⟩
  · rw [extends_buildEnding Modulators.covers_strict_broadcast order order' t scope plan h, h]
  · rw [extends_buildEnding Modulators.covers_broadcast_cycle order order' t scope plan h, h]

/-- A filter by a `where` that has one modulator for each of its operands. -/
def filterByDegrees : Traversal :=
  let degree := (identity.outgoing []).count
  let compare : ModulatedStep :=
    .wherePredicate ⟨none, .compareTo .gt .null, ["a"], [identity.values "age", degree]⟩
  (identity.vertices []).modulated (.whereTraversal (identity.modulated compare))

theorem build_of_policy_filterByDegrees :
    ∃ plan, plan.operators.length = 2 ∧
      (filterByDegrees.buildEnding [1, 0] ⟨.strict, 7, true⟩ .root).result = .ok plan ∧
      (filterByDegrees.buildEnding [0, 1] ⟨.broadcast, 7, true⟩ .root).result = .ok plan ∧
      (filterByDegrees.buildEnding [1, 0] ⟨.cycle, 7, true⟩ .root).result = .ok plan := by
  have hlength : (filterByDegrees.buildEnding [1, 0] ⟨.strict, 7, true⟩ .root).result.map
      (fun plan => plan.operators.length) = .ok 2 := by cbv
  cases h : (filterByDegrees.buildEnding [1, 0] ⟨.strict, 7, true⟩ .root).result with
  | error e =>
    rw [h] at hlength
    cases hlength
  | ok plan =>
    have hbroadcast := (build_of_policy filterByDegrees .root 7 true [1, 0] [0, 1]).1 plan h
    have hcycle := (build_of_policy filterByDegrees .root 7 true [0, 1] [1, 0]).2.1 plan hbroadcast
    rw [h] at hlength
    exact ⟨plan, Except.ok.inj hlength, rfl, hbroadcast, hcycle⟩

end Traversal
end TraversalPlan

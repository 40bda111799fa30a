import Mathlib.Data.List.Forall2
import TraversalPlan.Lowering.Build
import TraversalPlan.Proofs.Lowering.Binder
import TraversalPlan.Proofs.Lowering.Elementary

/-!
# When lowering succeeds

What each rule has found out once it succeeds. Every rule resolves its sub-traversals one by one and
ends in one operator, so its success is a list of resolved expressions (`Context.Resolves`) together
with that operator.

* `Traced.traverse_eq_ok`: a traversal of a list succeeds when every item does.
* `Context.Resolves`: an expression that was extracted, or a subquery bound to an alias.
* `WherePredicateStep.Operands`: the operands of a `where`, each with the next modulator and the next
  number.
* `SelectStep.lower_eq_ok` and its like: one lemma for each rule.
* `Builder.ofSteps_eq_ok`, `Traversal.steps_of_build`: the plan of a traversal is that of its steps.
-/

namespace TraversalPlan

/-! ## Sequences -/

theorem Traced.traverse_eq_ok {ε α β : Type} {f : α → Traced ε β} {as : List α} {bs : List β} :
    (traverse f as).result = .ok bs ↔ List.Forall₂ (fun a b => (f a).result = .ok b) as bs := by
  induction as generalizing bs with
  | nil => cases bs <;> simp
  | cons a as ih =>
    rw [traverse_cons, result_bind_eq_ok]
    constructor
    · rintro ⟨b, hb, h⟩
      obtain ⟨rest, hrest, h⟩ := result_bind_eq_ok.1 h
      obtain rfl : b :: rest = bs := by simpa using h
      exact .cons hb (ih.1 hrest)
    · intro h
      cases h with
      | cons hb hrest => exact ⟨_, hb, result_bind_eq_ok.2 ⟨_, ih.2 hrest, rfl⟩⟩

/-- Outcomes that are gathered into a list have all succeeded. -/
theorem mapM_id_eq_ok {ε α : Type} {outcomes : List (Except ε α)} {as : List α} :
    outcomes.mapM id = .ok as ↔ outcomes = as.map .ok := by
  induction outcomes generalizing as with
  | nil => cases as <;> simp [pure, Except.pure]
  | cons r outcomes ih =>
    rw [List.mapM_cons]
    cases r with
    | error e => cases as <;> simp [bind, Except.bind]
    | ok a =>
      cases hr : outcomes.mapM id with
      | error e =>
        cases as with
        | nil => simp [bind, Except.bind]
        | cons b as =>
          have hne : outcomes ≠ as.map .ok := fun h => by simp [ih.2 h] at hr
          simp [bind, Except.bind, hne]
      | ok rest =>
        rw [ih] at hr
        subst hr
        have hinj : Function.Injective (Except.ok : α → Except ε α) := fun _ _ h => Except.ok.inj h
        cases as <;> simp [bind, Except.bind, pure, Except.pure, List.map_inj_right hinj]

section Zip

variable {α β γ δ : Type} {f : α → β → γ} {as : List α} {bs : List β}

theorem map_zipWith_left {g : γ → α} (hlen : as.length = bs.length)
    (h : ∀ a b, g (f a b) = a) : (as.zipWith f bs).map g = as := by
  apply List.ext_getElem <;> simp [hlen, h]

theorem map_zipWith_right {g : γ → δ} {k : β → δ} (hlen : as.length = bs.length)
    (h : ∀ a b, g (f a b) = k b) : (as.zipWith f bs).map g = bs.map k := by
  apply List.ext_getElem <;> simp [hlen, h]

end Zip

/-! ## Sub-traversals -/

namespace Context

variable {c : Context}

@[simp]
theorem result_fail {α : Type} (c : Context) (fault : Fault) :
    (c.fail fault : Lowering α).result = .error ⟨c.step, fault⟩ := rfl

/-- What becomes of an extracted expression, or of a subquery if there is none. -/
inductive Resolves (c : Context) (t : Traversal) (a : Alias) (sub : Nat) :
    Option String → Resolved → Prop
  | expression (e : String) : Resolves c t a sub (some e) ⟨none, e⟩
  | subquery (plan : Plan) (h : (c.build t (c.step.position.child sub)).result = .ok plan) :
    Resolves c t a sub none ⟨some (.apply plan.operators .inner (some a)), a.expr⟩

theorem orSubquery_eq_ok {e : Option String} {t : Traversal} {a : Alias} {sub : Nat}
    {r : Resolved} : (c.orSubquery e t a sub).result = .ok r ↔ c.Resolves t a sub e r := by
  cases e with
  | some e =>
    constructor
    · intro h
      obtain rfl : (⟨none, e⟩ : Resolved) = r := by simpa [orSubquery] using h
      exact .expression e
    · intro h
      cases h with
      | expression => rfl
  | none =>
    simp only [orSubquery, materialize, Traced.result_bind_eq_ok]
    constructor
    · rintro ⟨_, -, plan, hplan, h⟩
      obtain rfl := Except.ok.inj h
      exact .subquery plan hplan
    · intro h
      cases h with
      | subquery plan hplan => exact ⟨(), rfl, plan, hplan, rfl⟩

theorem one_eq_ok {x : Extraction} {e : Option String} :
    (c.one x).result = .ok e ↔ x.size = 1 ∧ x.single? = e := by
  unfold one
  split <;> simp [*]

theorem resolve_eq_ok {t : Traversal} {sub : Nat} {r : Resolved} :
    (c.resolve t sub).result = .ok r ↔ t.extract.size = 1 ∧
      c.Resolves t (c.column .subquery "" sub) sub t.extract.single? r := by
  simp only [resolve, Traced.result_bind_eq_ok, one_eq_ok, orSubquery_eq_ok]
  constructor
  · rintro ⟨e, ⟨hsize, rfl⟩, h⟩
    exact ⟨hsize, h⟩
  · rintro ⟨hsize, h⟩
    exact ⟨_, ⟨hsize, rfl⟩, h⟩

theorem existence_eq_ok {t : Traversal} {join : JoinKind} {o : Operator} :
    (c.existence t join).result = .ok o ↔ ∃ plan,
      (c.build t (c.step.position.child 0)).result = .ok plan ∧
        o = .apply plan.operators join none := by
  simp only [existence, Traced.result_bind_eq_ok]
  constructor
  · rintro ⟨_, -, plan, hplan, h⟩
    exact ⟨plan, hplan, (Except.ok.inj h).symm⟩
  · rintro ⟨plan, hplan, rfl⟩
    exact ⟨(), rfl, plan, hplan, rfl⟩

end Context

/-! ## Rules -/

section Rules

variable {c : Context} {ops : List Operator}

theorem SelectStep.lower_eq_ok {s : SelectStep} :
    (s.lower c).result = .ok ops ↔
      s.keys ≠ [] ∧ s.extract.entries.length = s.keys.length ∧ ∃ resolved : List Resolved,
        List.Forall₂ (fun x r => c.Resolves ((s.modulatorFor x.2).rootedAt x.1.1)
          (c.column .tagSubquery x.1.1 x.2) x.2 x.1.2 r) s.extract.entries.zipIdx resolved ∧
        ops = Resolved.operators resolved
          (.project ((resolved.zip s.extract.entries.zipIdx).map fun (r, e, i) =>
            ⟨r.expression, if s.extract.entries.length = 1 then none
              else some (c.column .projectedTag e.1 i)⟩)) := by
  unfold SelectStep.lower
  by_cases hkeys : s.keys = []
  · simp [hkeys]
  by_cases hlen : s.extract.entries.length = s.keys.length
  · simp only [List.isEmpty_iff, hkeys, hlen, Traced.result_bind_eq_ok, Traced.traverse_eq_ok,
      if_false, ne_eq, not_true_eq_false, not_false_eq_true, true_and, resolveKey,
      Context.orSubquery_eq_ok]
    constructor
    · rintro ⟨resolved, h, hops⟩
      exact ⟨resolved, h, (Except.ok.inj hops).symm⟩
    · rintro ⟨resolved, h, rfl⟩
      exact ⟨resolved, h, rfl⟩
  · simp [hkeys, hlen]

theorem DedupStep.lower_eq_ok {s : DedupStep} :
    (s.lower c).result = .ok ops ↔
      s.extract.entries.length = s.tags.length ∧ ∃ resolved : List Resolved,
        List.Forall₂ (fun x r => c.Resolves (s.modulatorOrIdentity.rootedAt x.1.1)
          (c.column .subquery "" x.2) x.2 x.1.2 r) s.extract.entries.zipIdx resolved ∧
        ops = Resolved.operators resolved (.dedup (resolved.map Resolved.expression)) := by
  unfold DedupStep.lower
  by_cases hlen : s.extract.entries.length = s.tags.length
  · simp only [hlen, Traced.result_bind_eq_ok, Traced.traverse_eq_ok, if_false, ne_eq,
      not_true_eq_false, true_and, Context.orSubquery_eq_ok]
    constructor
    · rintro ⟨resolved, h, hops⟩
      exact ⟨resolved, h, (Except.ok.inj hops).symm⟩
    · rintro ⟨resolved, h, rfl⟩
      exact ⟨resolved, h, rfl⟩
  · simp [hlen]

theorem SampleStep.lower_eq_ok {s : SampleStep} :
    (s.lower c).result = .ok ops ↔ ∃ amount weight,
      SampleAmount.ofNumber? s.amount = some amount ∧
        (c.resolve s.modulatorOrIdentity 0).result = .ok weight ∧
        ops = Resolved.operators [weight]
          (.sample amount (s.seed.getD c.config.defaultSampleSeed) weight.expression) := by
  unfold SampleStep.lower
  cases hamount : SampleAmount.ofNumber? s.amount with
  | none => simp
  | some amount =>
    simp only [Traced.result_bind_eq_ok, Option.some.injEq]
    constructor
    · rintro ⟨weight, hweight, hops⟩
      exact ⟨amount, weight, rfl, hweight, (Except.ok.inj hops).symm⟩
    · rintro ⟨_, weight, rfl, hweight, rfl⟩
      exact ⟨weight, hweight, rfl⟩

theorem OrderStep.lower_eq_ok {s : OrderStep} :
    (s.lower c).result = .ok ops ↔ ∃ resolved : List Resolved,
      List.Forall₂ (fun x r => (c.resolve x.1.key x.2).result = .ok r) s.sortKeys.zipIdx resolved ∧
        ops = Resolved.operators resolved
          (.order (resolved.zipWith (fun r k => ⟨r.expression, k.order⟩) s.sortKeys)) := by
  unfold OrderStep.lower
  simp only [Traced.result_bind_eq_ok, Traced.traverse_eq_ok]
  constructor
  · rintro ⟨resolved, h, hops⟩
    exact ⟨resolved, h, (Except.ok.inj hops).symm⟩
  · rintro ⟨resolved, h, rfl⟩
    exact ⟨resolved, h, rfl⟩

theorem GroupStep.lower_eq_ok {s : GroupStep} :
    (s.lower c).result = .ok ops ↔ ∃ (resolved : List Resolved) (values : List Aggregate),
      List.Forall₂ (fun x r => (c.resolve x.1 x.2).result = .ok r)
        s.keyTraversals.zipIdx resolved ∧
      List.Forall₂ (fun x v => (aggregate c x.1 (c.column .groupValue "" x.2)).result = .ok v)
        s.valueTraversals.zipIdx values ∧
      ops = Resolved.operators resolved (.group
        (resolved.zipWith (fun r x => ⟨r.expression, keyAlias c x.1 x.2⟩) s.keyTraversals.zipIdx)
        values) := by
  unfold GroupStep.lower
  simp only [Traced.result_bind_eq_ok, Traced.traverse_eq_ok]
  constructor
  · rintro ⟨resolved, hkeys, values, hvalues, hops⟩
    exact ⟨resolved, values, hkeys, hvalues, (Except.ok.inj hops).symm⟩
  · rintro ⟨resolved, values, hkeys, hvalues, rfl⟩
    exact ⟨resolved, hkeys, values, hvalues, rfl⟩

/-- An aggregate is named as it is told to be. -/
theorem GroupStep.column_of_aggregate {value : Traversal} {a : Alias} {v : Aggregate}
    (h : (aggregate c value a).result = .ok v) : v.column = a := by
  unfold aggregate at h
  split at h
  · cases h
  · obtain ⟨source, -, hv⟩ := Traced.result_bind_eq_ok.1 h
    rw [← Except.ok.inj hv]
  · cases h

end Rules

/-! ## Operands of a `where` -/

namespace WherePredicateStep

variable {c : Context} {bys : List Traversal}

/-- The records of some tags, from the modulator with an index and the subquery with a number on. -/
inductive Operands (c : Context) (bys : List Traversal) :
    Nat → Nat → List String → List Resolved → Prop
  | nil (i sub : Nat) : Operands c bys i sub [] []
  | cons {i sub : Nat} {tag : String} {tags : List String} {t : Traversal} {r : Resolved}
    {rs : List Resolved} (modulator : Modulators.at? bys c.config.policy i = some t)
    (single : (t.rootedAt tag).extract.size = 1)
    (head : c.Resolves (t.rootedAt tag) (c.column .subquery "" sub) sub
      (t.rootedAt tag).extract.single? r)
    (tail : Operands c bys (i + 1)
      (if (t.rootedAt tag).extract.single?.isSome then sub else sub + 1) tags rs) :
    Operands c bys i sub (tag :: tags) (r :: rs)

theorem operand_eq_ok {i sub : Nat} {tag : String} {r : Resolved} {m : Modulators} {next : Nat} :
    (operand c ⟨bys, c.config.policy, i⟩ sub tag).result = .ok (r, m, next) ↔
      ∃ t, Modulators.at? bys c.config.policy i = some t ∧
        (t.rootedAt tag).extract.size = 1 ∧
        c.Resolves (t.rootedAt tag) (c.column .subquery "" sub) sub
          (t.rootedAt tag).extract.single? r ∧
        m = ⟨bys, c.config.policy, i + 1⟩ ∧
        next = if (t.rootedAt tag).extract.single?.isSome then sub else sub + 1 := by
  unfold operand Modulators.next
  cases ht : Modulators.at? bys c.config.policy i with
  | none => simp
  | some t =>
    simp only [Traced.result_bind_eq_ok, Context.one_eq_ok, Context.orSubquery_eq_ok,
      Option.some.injEq]
    constructor
    · rintro ⟨e, ⟨hsize, rfl⟩, r', hr, h⟩
      obtain ⟨rfl, rfl, rfl⟩ := Except.ok.inj h
      exact ⟨t, rfl, hsize, hr, rfl, rfl⟩
    · rintro ⟨_, rfl, hsize, hr, rfl, rfl⟩
      exact ⟨_, ⟨hsize, rfl⟩, r, hr, rfl⟩

theorem operands_eq_ok {i sub : Nat} {tags : List String} {rs : List Resolved} :
    (operands c ⟨bys, c.config.policy, i⟩ sub tags).result = .ok rs ↔
      Operands c bys i sub tags rs := by
  induction tags generalizing i sub rs with
  | nil =>
    constructor
    · intro h
      obtain rfl := Except.ok.inj h
      exact .nil i sub
    · intro h
      cases h
      rfl
  | cons tag tags ih =>
    simp only [operands, Traced.result_bind_eq_ok]
    constructor
    · rintro ⟨⟨r, m, next⟩, hoperand, rest, hrest, h⟩
      obtain rfl : r :: rest = rs := Except.ok.inj h
      obtain ⟨t, ht, hsize, hr, rfl, rfl⟩ := operand_eq_ok.1 hoperand
      exact .cons ht hsize hr (ih.1 hrest)
    · intro h
      cases h with
      | cons ht hsize hr hrest =>
        exact ⟨_, operand_eq_ok.2 ⟨_, ht, hsize, hr, rfl, rfl⟩, _, ih.2 hrest, rfl⟩

theorem lower_eq_ok {s : WherePredicateStep} {ops : List Operator} :
    (s.lower c).result = .ok ops ↔
      s.predicate.leafCount = s.selectKeys.length ∧ ∃ subject keys,
        Operands c s.bys 0 0 (s.startTag :: s.selectKeys) (subject :: keys) ∧
        ops = Resolved.operators (subject :: keys) (.select
          ((s.predicate.bind (keys.map Resolved.expression)).1.flatten subject.expression)) := by
  by_cases hcount : s.predicate.leafCount = s.selectKeys.length
  · simp only [lower_of_keyCount c hcount, hcount, true_and, Traced.result_bind_eq_ok,
      Modulators.start, operands_eq_ok]
    constructor
    · rintro ⟨resolved, h, hops⟩
      cases h with
      | cons ht hsize hr hkeys =>
        exact ⟨_, _, .cons ht hsize hr hkeys, (Except.ok.inj hops).symm⟩
    · rintro ⟨subject, keys, h, rfl⟩
      exact ⟨subject :: keys, h, rfl⟩
  · simp [lower, hcount]

end WherePredicateStep

theorem Traversal.lowerFilter_eq_ok {t : Traversal} {c : Context} {filter : String → String}
    {join : JoinKind} {ops : List Operator} :
    (t.lowerFilter c filter join).result = .ok ops ↔ t.extract.size = 1 ∧
      ((∃ e, t.extract.single? = some e ∧ ops = [.select (filter e)]) ∨
        t.extract.single? = none ∧ ∃ plan,
          (c.build t (c.step.position.child 0)).result = .ok plan ∧
            ops = [.apply plan.operators join none]) := by
  simp only [lowerFilter, Traced.result_bind_eq_ok, Context.one_eq_ok]
  constructor
  · rintro ⟨e, ⟨hsize, rfl⟩, h⟩
    cases he : t.extract.single? with
    | some e =>
      rw [he] at h
      exact ⟨hsize, .inl ⟨e, rfl, (Except.ok.inj h).symm⟩⟩
    | none =>
      rw [he] at h
      obtain ⟨o, ho, h⟩ := Traced.result_bind_eq_ok.1 h
      obtain ⟨plan, hplan, rfl⟩ := Context.existence_eq_ok.1 ho
      exact ⟨hsize, .inr ⟨rfl, plan, hplan, (Except.ok.inj h).symm⟩⟩
  · rintro ⟨hsize, ⟨e, he, rfl⟩ | ⟨he, plan, hplan, rfl⟩⟩
    · exact ⟨_, ⟨hsize, rfl⟩, by rw [he]; rfl⟩
    · refine ⟨_, ⟨hsize, rfl⟩, ?_⟩
      rw [he]
      exact Traced.result_bind_eq_ok.2 ⟨_, Context.existence_eq_ok.2 ⟨plan, hplan, rfl⟩, rfl⟩

/-! ## Steps and traversals -/

theorem Step.lower_eq_ok {build : Builder} {config : Config} {s : Step} {position : Position}
    {ops : List Operator} :
    (s.lower build config position).result = .ok ops ↔ ∃ own,
      (s.kind.lowerIn ⟨build, config, ⟨s.name, position⟩⟩).result = .ok own ∧
        ops = own ++ s.binding := by
  simp only [lower, Traced.result_bind_eq_ok]
  constructor
  · rintro ⟨own, hown, _, -, h⟩
    exact ⟨own, hown, (Except.ok.inj h).symm⟩
  · rintro ⟨own, hown, rfl⟩
    exact ⟨own, hown, (), rfl, rfl⟩

theorem StepKind.lowerIn_elementary_eq_ok {s : ElementaryStep} {c : Context}
    {ops : List Operator} :
    ((elementary s).lowerIn c).result = .ok ops ↔ s.lower c.step.position = .ok ops := by
  cases hs : s.lower c.step.position <;> simp [lowerIn, hs]

theorem Builder.ofSteps_eq_ok {build : Builder} {config : Config} {t : Traversal}
    {scope : Position} {plan : Plan} :
    (ofSteps build config t scope).result = .ok plan ↔ ∃ parts,
      List.Forall₂ (fun x ops => (Step.lower build config x.1 (scope.child x.2)).result = .ok ops)
        t.steps.zipIdx parts ∧ plan = ⟨parts.flatten⟩ := by
  simp only [ofSteps, Traced.result_bind_eq_ok, Traced.traverse_eq_ok]
  constructor
  · rintro ⟨parts, h, hplan⟩
    exact ⟨parts, h, (Except.ok.inj hplan).symm⟩
  · rintro ⟨parts, h, rfl⟩
    exact ⟨parts, h, rfl⟩

/-- How the subqueries of steps are lowered, with the nesting depth given. -/
def Builder.inner (config : Config) : Nat → Builder
  | 0 => unused
  | depth + 1 => ofDepth config depth

theorem Builder.ofDepth_eq_ofSteps (config : Config) (depth : Nat) :
    ofDepth config depth = ofSteps (inner config depth) config := by
  cases depth <;> rfl

theorem gather_eq_ok {ε α : Type} {finish : List Nat} {outcomes : List (Except ε α)}
    {as : List α} : gather finish outcomes = .ok as ↔ outcomes = as.map .ok := by
  unfold gather
  constructor
  · intro h
    dsimp only at h
    split at h
    · cases h
    · exact mapM_id_eq_ok.1 h
  · rintro rfl
    dsimp only
    split
    · rename_i e he
      obtain ⟨i, -, hi⟩ := List.exists_of_findSome?_eq_some he
      rw [List.getElem?_map] at hi
      cases hai : as[i]? <;> simp [hai] at hi
    · exact mapM_id_eq_ok.2 rfl

theorem forall₂_ok_iff {ε α β : Type} {f : α → Traced ε β} {as : List α} {bs : List β} :
    (as.map f).map Traced.result = bs.map .ok ↔
      List.Forall₂ (fun a b => (f a).result = .ok b) as bs := by
  rw [List.map_map]
  induction as generalizing bs with
  | nil => cases bs <;> simp
  | cons a as ih => cases bs <;> simp [ih]

/-- **A plan is that of its steps**, also if the steps of a query are lowered at the same time. -/
theorem Traversal.steps_of_build {order : List Nat} {config : Config} {t : Traversal}
    {scope : Position} {plan : Plan} (h : (t.buildEnding order config scope).result = .ok plan) :
    ∃ depth parts,
      List.Forall₂ (fun x ops => (Step.lower (Builder.inner config depth) config x.1
        (scope.child x.2)).result = .ok ops) t.steps.zipIdx parts ∧ plan = ⟨parts.flatten⟩ := by
  unfold buildEnding at h
  split at h
  · -- the subqueries of a step may be nested as deep as the query
    simp only [buildFinishing] at h
    cases hparts : gather order ((t.outcomes config scope).map Traced.result) with
    | error e =>
      rw [hparts] at h
      cases h
    | ok parts =>
      rw [hparts] at h
      exact ⟨t.depth + 1, parts, forall₂_ok_iff.1 (gather_eq_ok.1 hparts), (Except.ok.inj h).symm⟩
  · rw [buildInOrder, Builder.ofDepth_eq_ofSteps] at h
    exact ⟨t.depth, Builder.ofSteps_eq_ok.1 h⟩

end TraversalPlan

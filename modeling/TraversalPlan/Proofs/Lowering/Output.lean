import TraversalPlan.Proofs.Lowering.Depth
import TraversalPlan.Proofs.Lowering.WhereReading

/-!
# What a step is lowered to

A step that is lowered gives one subquery for each slot that is not pure, in the order of the slots,
and then one operator of its own kind. In this operator an expression stands for each slot: the
expression of the slot if it is pure, and otherwise the column of its subquery
(**`operators_of_slots`**).

* `Context.Resolves.expression_eq`: what stands for a slot does not depend on its subquery.
* `ModulatedStep.Writes`: the operator of each rule around the expressions of its slots.
* `ModulatedStep.lowerIn_eq_ok`: a rule succeeds when its three parts do.
-/

namespace TraversalPlan

/-! ## Slots that are filled -/

section Slots

variable {c : Context}

theorem Context.fill_eq_ok {s : Slot} {r : Resolved} :
    (c.fill s).result = .ok r ↔ s.extraction.size = 1 ∧
      c.Resolves s.traversal (s.column c.step.position) s.number s.expr? r := by
  simp only [fill, Traced.result_bind_eq_ok, one_eq_ok, orSubquery_eq_ok]
  constructor
  · rintro ⟨e, ⟨hsize, rfl⟩, h⟩
    exact ⟨hsize, h⟩
  · rintro ⟨hsize, h⟩
    exact ⟨_, ⟨hsize, rfl⟩, h⟩

theorem Context.Resolves.expression_eq {t : Traversal} {a : Alias} {sub : Nat} {e : Option String}
    {r : Resolved} (h : c.Resolves t a sub e r) : r.expression = e.getD a.expr := by
  cases h <;> rfl

/-- The subquery of a slot. -/
def Slot.IsSubquery (s : Slot) (c : Context) (o : Operator) : Prop :=
  ∃ plan, (c.build s.traversal (c.step.position.child s.number)).result = .ok plan ∧
    o = .apply plan.operators .inner (some (s.column c.step.position))

/-- **There is one subquery for each slot that is not pure**, and what stands for the slots is known
without them. -/
theorem subqueries_of_filled {slots : List Slot} {resolved : List Resolved}
    (h : List.Forall₂ (fun s r => (c.fill s).result = .ok r) slots resolved) :
    List.Forall₂ (fun s o => s.IsSubquery c o) (slots.filter fun s => s.expr?.isNone)
        (resolved.filterMap Resolved.subquery) ∧
      resolved.map Resolved.expression = slots.map fun s => s.expression c.step.position := by
  induction h with
  | nil => exact ⟨.nil, rfl⟩
  | @cons s r slots resolved hr _ ih =>
    obtain ⟨hsubqueries, hexpressions⟩ := ih
    obtain ⟨-, hresolves⟩ := Context.fill_eq_ok.1 hr
    have hexpression : r.expression = s.expression c.step.position := hresolves.expression_eq
    refine ⟨?_, by rw [List.map_cons, List.map_cons, hexpression, hexpressions]⟩
    cases he : s.expr? with
    | some e =>
      rw [he] at hresolves
      cases hresolves
      simpa [he] using hsubqueries
    | none =>
      rw [he] at hresolves
      cases hresolves with
      | subquery plan hplan => simpa [he] using ⟨⟨plan, hplan, rfl⟩, hsubqueries⟩

end Slots

/-! ## The operator of a step -/

/-- The operator that a rule writes around the expressions of its slots. -/
inductive ModulatedStep.Writes (c : Context) : ModulatedStep → List String → Operator → Prop
  /-- One item for each key. Only if there are several have the items columns of their own. -/
  | select (s : SelectStep) (items : List ProjectItem)
    (columns : items.map ProjectItem.column = s.keys.zipIdx.map fun (key, i) =>
      if s.keys.length = 1 then none else some (c.column .projectedTag key i)) :
    Writes c (.select s) (items.map ProjectItem.expression) (.project items)
  | dedup (s : DedupStep) (keys : List String) (length : keys.length = s.tags.length) :
    Writes c (.dedup s) keys (.dedup keys)
  | sample (s : SampleStep) (amount : SampleAmount) (weight : String)
    (size : SampleAmount.ofNumber? s.amount = some amount) :
    Writes c (.sample s) [weight]
      (.sample amount (s.seed.getD c.config.defaultSampleSeed) weight)
  /-- One key for each comparator, with the direction of that comparator. -/
  | order (s : OrderStep) (keys : List SortKey)
    (directions : keys.map SortKey.order = s.sortKeys.map Comparator.order) :
    Writes c (.order s) (keys.map SortKey.expression) (.order keys)
  /-- One key for each key of the step, with the column of that key. The values have no slots. -/
  | group (s : GroupStep) (keys : List GroupKey) (values : List Aggregate)
    (columns : keys.map GroupKey.column = s.keyTraversals.zipIdx.map fun (key, i) =>
      GroupStep.keyAlias c key i)
    (aggregates : List.Forall₂ (fun (value, i) v =>
      (GroupStep.aggregate c value (c.column .groupValue "" i)).result = .ok v)
      s.valueTraversals.zipIdx values) :
    Writes c (.group s) (keys.map GroupKey.expression) (.group keys values)
  /-- The predicate of the step, which compares the first slot with each of the others. -/
  | wherePredicate (s : WherePredicateStep) (subject : String) (keys : List String)
    (bound : Predicate) (length : keys.length = s.selectKeys.length)
    (connectives : bound.skeleton = s.predicate.skeleton)
    (operands : bound.operands = keys.map .expr) :
    Writes c (.wherePredicate s) (subject :: keys) (.select (bound.flatten subject))
  | whereTraversal (t : Traversal) (e : String) (pure : t.extract.single? = some e) :
    Writes c (.whereTraversal t) [] (.select e)
  | not (t : Traversal) (e : String) (pure : t.extract.single? = some e) :
    Writes c (.not t) [] (.select (Expr.negate e))
  /-- A filter by a traversal that is not pure asks only whether the subquery yields anything. -/
  | semi (t : Traversal) (plan : Plan) (impure : t.extract.single? = none)
    (lowered : (c.build t (c.step.position.child 0)).result = .ok plan) :
    Writes c (.whereTraversal t) [] (.apply plan.operators .semi none)
  | anti (t : Traversal) (plan : Plan) (impure : t.extract.single? = none)
    (lowered : (c.build t (c.step.position.child 0)).result = .ok plan) :
    Writes c (.not t) [] (.apply plan.operators .anti none)

namespace ModulatedStep

variable {c : Context}

theorem Writes.of_eq {m : ModulatedStep} {es es' : List String} {o : Operator}
    (h : m.Writes c es o) (hes : es = es') : m.Writes c es' o := hes ▸ h

theorem lowerIn_eq_ok {m : ModulatedStep} {ops : List Operator} :
    (m.lowerIn c).result = .ok ops ↔ m.fault? = none ∧ ∃ resolved operator,
      List.Forall₂ (fun s r => (c.fill s).result = .ok r) (m.slots c.config.policy) resolved ∧
      (m.terminal c (resolved.map Resolved.expression)).result = .ok operator ∧
      ops = Resolved.operators resolved operator := by
  rw [lowerIn_eq, lowerParts]
  cases m.fault? with
  | some fault => simp
  | none =>
    simp only [Traced.result_bind_eq_ok, Traced.traverse_eq_ok, true_and]
    constructor
    · rintro ⟨resolved, hresolved, operator, hoperator, hops⟩
      exact ⟨resolved, operator, hresolved, hoperator, (Except.ok.inj hops).symm⟩
    · rintro ⟨resolved, operator, hresolved, hoperator, rfl⟩
      exact ⟨resolved, hresolved, operator, hoperator, rfl⟩

theorem filterOperator_eq_ok {t : Traversal} {filter : String → String} {join : JoinKind}
    {o : Operator} (h : (t.filterOperator c filter join).result = .ok o) :
    (∃ e, t.extract.single? = some e ∧ o = .select (filter e)) ∨
      t.extract.single? = none ∧ ∃ plan,
        (c.build t (c.step.position.child 0)).result = .ok plan ∧
          o = .apply plan.operators join none := by
  have hlower : (t.lowerFilter c filter join).result = .ok [o] := by
    rw [t.lowerFilter_eq]
    exact Traced.result_bind_eq_ok.2 ⟨o, h, rfl⟩
  obtain ⟨-, ⟨e, he, ho⟩ | ⟨he, plan, hplan, ho⟩⟩ := Traversal.lowerFilter_eq_ok.1 hlower
  · exact .inl ⟨e, he, List.singleton_inj.1 ho⟩
  · exact .inr ⟨he, plan, hplan, List.singleton_inj.1 ho⟩

/-- **The operator of a step holds what stands for its slots**, in their order. -/
theorem writes_of_terminal {m : ModulatedStep} {es : List String} {o : Operator}
    (hfault : m.fault? = none) (hlen : es.length = (m.slots c.config.policy).length)
    (h : (m.terminal c es).result = .ok o) : m.Writes c es o := by
  cases m with
  | select s =>
    obtain rfl := Except.ok.inj h
    have hkeys : es.length = s.keys.zipIdx.length := by simpa [slots, SelectStep.slots] using hlen
    refine .of_eq (.select s _ ?_) (map_zipWith_left hkeys fun _ _ => rfl)
    exact map_zipWith_right hkeys fun _ _ => rfl
  | dedup s =>
    obtain rfl := Except.ok.inj h
    exact .dedup s es (by simpa [slots, DedupStep.slots] using hlen)
  | sample s =>
    obtain ⟨weight, rfl⟩ := List.length_eq_one_iff.1 hlen
    rw [terminal] at h
    cases hamount : SampleAmount.ofNumber? s.amount with
    | none =>
      rw [hamount] at h
      cases h
    | some amount =>
      rw [hamount] at h
      obtain rfl := Except.ok.inj h
      exact .sample s amount weight hamount
  | order s =>
    obtain rfl := Except.ok.inj h
    have hkeys : es.length = s.sortKeys.length := by simpa [slots, slotsOf] using hlen
    refine .of_eq (.order s _ ?_) (map_zipWith_left hkeys fun _ _ => rfl)
    exact map_zipWith_right hkeys fun _ _ => rfl
  | group s =>
    obtain ⟨values, hvalues, h⟩ := Traced.result_bind_eq_ok.1 h
    obtain rfl := Except.ok.inj h
    have hkeys : es.length = s.keyTraversals.zipIdx.length := by
      simpa [slots, slotsOf] using hlen
    refine .of_eq (.group s _ values ?_ (Traced.traverse_eq_ok.1 hvalues))
      (map_zipWith_left hkeys fun _ _ => rfl)
    exact map_zipWith_right hkeys fun _ _ => rfl
  | wherePredicate s =>
    have hcount : s.predicate.leafCount = s.selectKeys.length := by
      by_contra hne
      simp [fault?, hne] at hfault
    have hslots := WherePredicateStep.length_slotsFrom_le s.bys c.config.policy 0 0
      (s.startTag :: s.selectKeys)
    rw [terminal] at h
    split at h
    · cases h
    · rename_i hmodulators
      obtain rfl := Except.ok.inj h
      -- there is a modulator for every operand, so no slot is missing
      have hes : es.length = s.selectKeys.length + 1 :=
        Nat.le_antisymm (hlen.trans_le hslots) (Nat.not_lt.1 hmodulators)
      obtain ⟨subject, keys, rfl⟩ := List.exists_cons_of_length_eq_add_one hes
      have hkeys : keys.length = s.selectKeys.length := Nat.succ.inj hes
      exact .wherePredicate s subject keys _ hkeys (s.predicate.skeleton_bind keys)
        (Predicate.operands_bind_of_length (hkeys.trans hcount.symm))
  | whereTraversal t =>
    obtain rfl := List.length_eq_zero_iff.1 hlen
    rcases filterOperator_eq_ok h with ⟨e, he, rfl⟩ | ⟨he, plan, hplan, rfl⟩
    · exact .whereTraversal t e he
    · exact .semi t plan he hplan
  | not t =>
    obtain rfl := List.length_eq_zero_iff.1 hlen
    rcases filterOperator_eq_ok h with ⟨e, he, rfl⟩ | ⟨he, plan, hplan, rfl⟩
    · exact .not t e he
    · exact .anti t plan he hplan

/-- **What a rule is lowered to**, however subqueries are lowered. -/
theorem operators_of_lowerIn {m : ModulatedStep} {ops : List Operator}
    (h : (m.lowerIn c).result = .ok ops) :
    ∃ subqueries operator, ops = subqueries ++ [operator] ∧
      List.Forall₂ (fun s o => s.IsSubquery c o)
        ((m.slots c.config.policy).filter fun s => s.expr?.isNone) subqueries ∧
      m.Writes c ((m.slots c.config.policy).map fun s => s.expression c.step.position) operator := by
  obtain ⟨hfault, resolved, operator, hresolved, hoperator, rfl⟩ := lowerIn_eq_ok.1 h
  obtain ⟨hsubqueries, hexpressions⟩ := subqueries_of_filled hresolved
  rw [hexpressions] at hoperator
  refine ⟨_, operator, rfl, hsubqueries, writes_of_terminal hfault ?_ hoperator⟩
  rw [List.length_map]

/-- **A step is one subquery for each slot that is not pure, in order, and then its own operator**,
which holds the pure expressions and the columns of the subqueries where the slots are. A subquery is
what its traversal is lowered to by itself. -/
theorem operators_of_slots {config : Config} {m : ModulatedStep} {position : Position}
    {ops : List Operator} (h : (m.lower config position).result = .ok ops) :
    ∃ subqueries operator, ops = subqueries ++ [operator] ∧
      List.Forall₂ (fun s o => ∃ plan,
          (s.traversal.build config (position.child s.number)).result = .ok plan ∧
          o = .apply plan.operators .inner (some (s.column position)))
        ((m.slots config.policy).filter fun s => s.expr?.isNone) subqueries ∧
      m.Writes ⟨fun t scope => t.build config scope, config, ⟨m.name, position⟩⟩
        ((m.slots config.policy).map fun s => s.expression position) operator := by
  rw [lower_eq] at h
  exact operators_of_lowerIn h

open Traversal in
/-- Compares the number of neighbours of a tagged record with a property of a second record and with
the number of neighbours of a third. -/
def compareDegrees : ModulatedStep :=
  let degree := (identity.outgoing []).count
  let greater := Predicate.compareTo .gt .null
  .wherePredicate ⟨some "a", .all [greater, greater], ["b", "c"],
    [degree, identity.values "age", degree]⟩

theorem operators_of_slots_compareDegrees :
    let position := Position.root.child 4
    let slots := compareDegrees.slots .broadcast
    ∃ ops, (compareDegrees.lower .standard position).result = .ok ops ∧
      slots.map (fun s => s.expression position) =
        ["@~expr_4_0", "@b.age", "@~expr_4_1"] ∧
      ∃ subqueries operator, ops = subqueries ++ [operator] ∧ subqueries.length = 2 ∧
        List.Forall₂ (fun s o => ∃ plan,
            (s.traversal.build .standard (position.child s.number)).result = .ok plan ∧
            o = .apply plan.operators .inner (some (s.column position)))
          (slots.filter fun s => s.expr?.isNone) subqueries ∧
        compareDegrees.Writes
          ⟨fun t scope => t.build .standard scope, .standard, ⟨compareDegrees.name, position⟩⟩
          (slots.map fun s => s.expression position) operator := by
  intro position slots
  have hexpressions : slots.map (fun s => s.expression position) =
      ["@~expr_4_0", "@b.age", "@~expr_4_1"] := by cbv
  have hpure : slots.map Slot.expr? = [none, some "@b.age", none] := by cbv
  have hcount : (slots.filter fun s => s.expr?.isNone).length = 2 := by
    have hnone : ((slots.map Slot.expr?).filter Option.isNone).length = 2 := by
      rw [hpure]
      rfl
    rwa [List.filter_map, List.length_map] at hnone
  have hok : (compareDegrees.lower .standard position).result.isOk = true := by cbv
  cases h : (compareDegrees.lower .standard position).result with
  | error e =>
    rw [h] at hok
    cases hok
  | ok ops =>
    obtain ⟨subqueries, operator, hops, hsubqueries, hwrites⟩ := operators_of_slots h
    exact ⟨ops, rfl, hexpressions, subqueries, operator, hops,
      hsubqueries.length_eq.symm.trans hcount, hsubqueries, hwrites⟩

end ModulatedStep
end TraversalPlan

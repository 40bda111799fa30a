import TraversalPlan.Proofs.Lowering.Output
import TraversalPlan.Traversal.Build

/-!
# Aggregates of groups

A value of a group ends in a reducing step, which gives the kind of the aggregate. A `dedup` right
before it asks for distinct values: a count and a list have such a kind, any other aggregate is the
plain one all the same. The source is the expression of the steps before the last, without a `dedup`
of the current record as it is (**`values_of_lower`**).

* `GroupStep.Leaves`: what the steps before a reducing step leave for the source.
* `GroupStep.aggregate_eq_ok`: when a value has an aggregate, and which.
* `AggregateKind.ofDistinct_eq_countDistinct`, `AggregateKind.ofDistinct_eq_toSet`: the kinds of
  distinct values come from a count and a list only.
-/

namespace TraversalPlan

/-! ## Kinds -/

namespace AggregateKind

/-- The kind of an aggregate of values that are distinct or not. -/
def ofDistinct (distinct : Bool) (r : Reducer) : AggregateKind :=
  if distinct then (ofReducer r).distinct else ofReducer r

variable {distinct : Bool} {r : Reducer}

theorem ofDistinct_eq_countDistinct :
    ofDistinct distinct r = countDistinct ↔ r = .count ∧ distinct = true := by
  cases distinct <;> cases r <;> simp [ofDistinct, ofReducer, AggregateKind.distinct]

theorem ofDistinct_eq_toSet : ofDistinct distinct r = toSet ↔ r = .fold ∧ distinct = true := by
  cases distinct <;> cases r <;> simp [ofDistinct, ofReducer, AggregateKind.distinct]

/-- Any other aggregate has the kind of its reducing step. -/
theorem ofDistinct_eq_ofReducer (h : distinct = true → r ≠ .count ∧ r ≠ .fold) :
    ofDistinct distinct r = ofReducer r := by
  cases distinct with
  | false => rfl
  | true =>
    obtain ⟨hcount, hfold⟩ := h rfl
    cases r with
    | count => exact absurd rfl hcount
    | fold => exact absurd rfl hfold
    | _ => rfl

end AggregateKind

namespace GroupStep

/-! ## Steps before an aggregate -/

/-- What the steps before a reducing step leave for the source, and whether they end in a
`dedup`. -/
inductive Leaves : List Step → Bool → List Step → Prop
  | all (steps : List Step)
    (last : ∀ before d labels, steps ≠ before ++ [⟨.modulated (.dedup d), labels⟩]) :
    Leaves steps false steps
  /-- A `dedup` of the current record as it is does not count for the source. -/
  | plain (before : List Step) (d : DedupStep) (labels : List String) (plain : d.isPlain = true) :
    Leaves (before ++ [⟨.modulated (.dedup d), labels⟩]) true before
  | kept (before : List Step) (d : DedupStep) (labels : List String) (plain : d.isPlain = false) :
    Leaves (before ++ [⟨.modulated (.dedup d), labels⟩]) true
      (before ++ [⟨.modulated (.dedup d), labels⟩])

theorem endsInDedup_eq_false {steps : List Step}
    (h : ∀ before d labels, steps ≠ before ++ [⟨.modulated (.dedup d), labels⟩]) :
    endsInDedup steps = false ∧ dropPlainDedup steps = steps := by
  unfold endsInDedup dropPlainDedup
  split
  · rename_i d labels hlast
    obtain ⟨before, hsteps⟩ := List.getLast?_eq_some_iff.1 hlast
    exact absurd hsteps (h before d labels)
  · exact ⟨rfl, rfl⟩

/-- **The last of the steps decides what is left.** -/
theorem leaves_iff {steps rest : List Step} {distinct : Bool} :
    Leaves steps distinct rest ↔ endsInDedup steps = distinct ∧ dropPlainDedup steps = rest := by
  constructor
  · intro h
    cases h with
    | all _ last => exact endsInDedup_eq_false last
    | plain before d labels hplain => simp [endsInDedup, dropPlainDedup, hplain]
    | kept before d labels hplain => simp [endsInDedup, dropPlainDedup, hplain]
  · rintro ⟨rfl, rfl⟩
    by_cases hlast : ∃ before d labels, steps = before ++ [⟨.modulated (.dedup d), labels⟩]
    · obtain ⟨before, d, labels, rfl⟩ := hlast
      cases hplain : d.isPlain with
      | true =>
        have h := Leaves.plain before d labels hplain
        simpa [endsInDedup, dropPlainDedup, hplain] using h
      | false =>
        have h := Leaves.kept before d labels hplain
        simpa [endsInDedup, dropPlainDedup, hplain] using h
    · have hall : ∀ before d labels, steps ≠ before ++ [⟨.modulated (.dedup d), labels⟩] :=
        fun before d labels h => hlast ⟨before, d, labels, h⟩
      obtain ⟨hdistinct, hdrop⟩ := endsInDedup_eq_false hall
      rw [hdistinct, hdrop]
      exact .all steps hall

/-! ## Sources -/

/-- The source of an aggregate: the expression of the steps that are left, or none if none are. -/
inductive HasSource : List Step → Option String → Prop
  | records : HasSource [] none
  | expression {steps : List Step} {e : String} (ne : steps ≠ [])
    (pure : (extractSteps steps).single? = some e) : HasSource steps (some e)

section

variable {c : Context} {steps : List Step} {o : Option String}

theorem HasSource.eq_none_iff (h : HasSource steps o) : o = none ↔ steps = [] := by
  cases h with
  | records => exact iff_of_true rfl rfl
  | expression ne pure => exact iff_of_false nofun ne

theorem HasSource.eq_single? (h : HasSource steps o) (hne : steps ≠ []) :
    o = (extractSteps steps).single? := by
  cases h with
  | records => exact absurd rfl hne
  | expression ne pure => exact pure.symm

theorem source_eq_ok : (source c steps).result = .ok o ↔ HasSource steps o := by
  cases steps with
  | nil =>
    constructor
    · intro h
      obtain rfl := Except.ok.inj h
      exact .records
    · intro h
      cases h with
      | records => rfl
      | expression ne pure => exact absurd rfl ne
  | cons s rest =>
    simp only [source, List.isEmpty_cons, Bool.false_eq_true, if_false, Traced.result_bind_eq_ok,
      Context.one_eq_ok]
    constructor
    · rintro ⟨e?, ⟨-, he⟩, h⟩
      cases e? with
      | none => cases h
      | some e =>
        obtain rfl := Except.ok.inj h
        exact .expression (List.cons_ne_nil s rest) he
    · intro h
      cases h with
      | expression ne pure => exact ⟨_, ⟨Extraction.size_of_single? pure, pure⟩, rfl⟩

end

/-! ## Values -/

/-- The aggregate that a value traversal denotes, in any column. -/
inductive Denotes : Traversal → Aggregate → Prop
  | reduce {steps rest : List Step} {distinct : Bool} {e : Option String} (r : Reducer)
    (labels : List String) (column : Alias) (leaves : Leaves steps distinct rest)
    (source : HasSource rest e) :
    Denotes ⟨steps ++ [⟨.elementary (.reduce r), labels⟩]⟩
      ⟨AggregateKind.ofDistinct distinct r, e, column⟩

theorem splitLast?_eq_some {steps before : List Step} {last : Step} :
    splitLast? steps = some (before, last) ↔ steps = before ++ [last] := by
  rw [splitLast?, Option.map_eq_some_iff]
  constructor
  · rintro ⟨s, hs, h⟩
    obtain ⟨rfl, rfl⟩ := Prod.mk.inj h
    obtain ⟨front, rfl⟩ := List.getLast?_eq_some_iff.1 hs
    rw [List.dropLast_concat]
  · rintro rfl
    exact ⟨last, List.getLast?_concat, by rw [List.dropLast_concat]⟩

/-- **When a value has an aggregate, and which.** -/
theorem aggregate_eq_ok {c : Context} {v : Traversal} {a : Alias} {g : Aggregate} :
    (aggregate c v a).result = .ok g ↔ Denotes v g ∧ g.column = a := by
  constructor
  · intro h
    unfold aggregate at h
    split at h
    · cases h
    · rename_i steps r labels hsplit
      obtain ⟨e, he, hg⟩ := Traced.result_bind_eq_ok.1 h
      obtain rfl := Except.ok.inj hg
      obtain ⟨vsteps⟩ := v
      obtain rfl : vsteps = steps ++ [⟨.elementary (.reduce r), labels⟩] :=
        splitLast?_eq_some.1 hsplit
      exact ⟨.reduce r labels a (leaves_iff.2 ⟨rfl, rfl⟩) (source_eq_ok.1 he), rfl⟩
    · cases h
  · rintro ⟨hdenotes, rfl⟩
    cases hdenotes with
    | @reduce steps rest distinct e r labels column leaves source =>
      obtain ⟨rfl, rfl⟩ := leaves_iff.1 leaves
      unfold aggregate
      rw [splitLast?_eq_some.2 rfl]
      exact Traced.result_bind_eq_ok.2 ⟨e, source_eq_ok.2 source, rfl⟩

/-- **What a group computes for its values.** An aggregate is one of distinct values just if it is a
count or a list and a `dedup` stands right before the last step; any other has the kind of the last
step, whatever stands before it. The source is the expression of the steps that are left, if any. -/
theorem values_of_lower {config : Config} {s : GroupStep} {position : Position}
    {ops : List Operator} (h : ((ModulatedStep.group s).lower config position).result = .ok ops) :
    ∃ subqueries keys values, ops = subqueries ++ [.group keys values] ∧
      List.Forall₂ (fun v g => ∃ steps r labels distinct rest,
          v.steps = steps ++ [⟨.elementary (.reduce r), labels⟩] ∧ Leaves steps distinct rest ∧
          (g.kind = .countDistinct ↔ r = .count ∧ distinct = true) ∧
          (g.kind = .toSet ↔ r = .fold ∧ distinct = true) ∧
          ((distinct = true → r ≠ .count ∧ r ≠ .fold) → g.kind = .ofReducer r) ∧
          (g.source = none ↔ rest = []) ∧
          (rest ≠ [] → g.source = (extractSteps rest).single?))
        s.valueTraversals values := by
  obtain ⟨resolved, values, -, hvalues, rfl⟩ := lower_eq_ok.1 h
  refine ⟨_, _, values, rfl, ?_⟩
  rw [← List.zipIdx_map_fst 0 s.valueTraversals, List.forall₂_map_left_iff]
  refine hvalues.imp fun x g hg => ?_
  obtain ⟨v, i⟩ := x
  obtain ⟨hdenotes, -⟩ := aggregate_eq_ok.1 hg
  cases hdenotes with
  | @reduce steps rest distinct e r labels column leaves source =>
    exact ⟨steps, r, labels, distinct, rest, rfl, leaves,
      AggregateKind.ofDistinct_eq_countDistinct, AggregateKind.ofDistinct_eq_toSet,
      AggregateKind.ofDistinct_eq_ofReducer, source.eq_none_iff, source.eq_single?⟩

open Traversal in
/-- Counts and lists distinct values. -/
def distinctAges : GroupStep :=
  let age := identity.values "age"
  ⟨[], [age.dedup.count, (identity.modulated (.dedup ⟨["a"], none⟩)).fold], false⟩

/-- Adds up distinct values. -/
def sumOfAges : GroupStep :=
  ⟨[], [(Traversal.identity.values "age").dedup.sum], false⟩

/-- The kinds and sources of the aggregates of operators. -/
def aggregatesOf (ops : List Operator) : List (AggregateKind × Option String) :=
  ops.flatMap fun o =>
    match o with
    | .group _ values => values.map fun g => (g.kind, g.source)
    | _ => []

theorem values_of_lower_distinctAges :
    ∃ ops, ((ModulatedStep.group distinctAges).lower .standard (Position.root.child 0)).result =
        .ok ops ∧
      aggregatesOf ops = [(.countDistinct, some "@.age"), (.toSet, some "@a")] ∧
      ∃ subqueries keys values, ops = subqueries ++ [.group keys values] ∧
        List.Forall₂ (fun v g => ∃ steps r labels distinct rest,
            v.steps = steps ++ [⟨.elementary (.reduce r), labels⟩] ∧ Leaves steps distinct rest ∧
            (rest ≠ [] → g.source = (extractSteps rest).single?))
          distinctAges.valueTraversals values := by
  have haggregates : ((ModulatedStep.group distinctAges).lower .standard
      (Position.root.child 0)).result.map aggregatesOf =
        .ok [(.countDistinct, some "@.age"), (.toSet, some "@a")] := by cbv
  cases h : ((ModulatedStep.group distinctAges).lower .standard (Position.root.child 0)).result with
  | error e =>
    rw [h] at haggregates
    cases haggregates
  | ok ops =>
    rw [h] at haggregates
    obtain ⟨subqueries, keys, values, hops, hvalues⟩ := values_of_lower h
    refine ⟨ops, rfl, Except.ok.inj haggregates, subqueries, keys, values, hops, ?_⟩
    refine hvalues.imp fun v g hg => ?_
    obtain ⟨steps, r, labels, distinct, rest, hsteps, hleaves, -, -, -, -, hsource⟩ := hg
    exact ⟨steps, r, labels, distinct, rest, hsteps, hleaves, hsource⟩

theorem sum_loses_dedup :
    ((ModulatedStep.group sumOfAges).lower .standard (Position.root.child 0)).result.map
        aggregatesOf = .ok [(.sum, some "@.age")] ∧
      ∀ v ∈ sumOfAges.valueTraversals, ∃ before d labels, v.steps =
        before ++ [⟨.modulated (.dedup d), labels⟩] ++ [⟨.elementary (.reduce .sum), []⟩] := by
  refine ⟨by cbv, List.forall_mem_singleton.2 ?_⟩
  exact ⟨(Traversal.identity.values "age").steps, ⟨[], none⟩, [], rfl⟩

end GroupStep
end TraversalPlan

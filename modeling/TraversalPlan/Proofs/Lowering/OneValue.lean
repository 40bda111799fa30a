import TraversalPlan.Proofs.Lowering.Depth
import TraversalPlan.Traversal.Build

/-!
# Modulators that do not denote one value

A lone `select` or `dedup` has an entry for each of its tags, so it may denote several values or
none. A rule refuses such a modulator where it extracts the modulator itself. Where it applies the
modulator to the record of a tag it follows the modulator as a chain, and a chain has one entry
whatever it is: there such a modulator is lowered as a subquery (**`lower_of_size_ne_one`**).

* `Cursor.through?_of_size_ne_one`: a modulator that has not one entry is not a pure chain.
* `Slot.isDirect`: the modulator of a slot is itself extracted.
* `ModulatedStep.Consults`: a rule comes to a modulator.
* `ModulatedStep.result_lowerIn_of_consults`: what is refused there fails the whole rule.
-/

namespace TraversalPlan

/-! ## Failures in a sequence -/

theorem Traced.traverse_eq_error {ε α β : Type} {f : α → Traced ε β} {before after : List α} {a : α}
    {bs : List β} {e : ε} (hbefore : (traverse f before).result = .ok bs)
    (ha : (f a).result = .error e) : (traverse f (before ++ a :: after)).result = .error e := by
  induction before generalizing bs with
  | nil =>
    rw [List.nil_append, traverse_cons]
    exact result_bind_eq_error.2 (.inl ha)
  | cons b before ih =>
    rw [traverse_cons] at hbefore
    obtain ⟨r, hr, hrest⟩ := result_bind_eq_ok.1 hbefore
    obtain ⟨rs, hrs, -⟩ := result_bind_eq_ok.1 hrest
    rw [List.cons_append, traverse_cons]
    refine result_bind_eq_error.2 (.inr ⟨r, hr, ?_⟩)
    exact result_bind_eq_error.2 (.inl (ih hrs))

/-! ## Modulators with several entries or none -/

theorem extractSteps_of_two (s s' : Step) (rest : List Step) :
    extractSteps (s :: s' :: rest) =
      match Cursor.current.through? (s :: s' :: rest) with
      | some c => .single c.tag (some c.expr)
      | none => .single "" none := by
  unfold extractSteps
  split
  · rename_i h
    cases h
  · rename_i h
    cases h
  · rfl

theorem size_extractSteps_nil : (extractSteps []).size = 1 := by
  simp [extractSteps, Cursor.through?, OrderedMap.single, OrderedMap.size]

/-- **Only a lone `select` or `dedup` has not one entry**, and neither is a pure chain then. -/
theorem Cursor.through?_of_size_ne_one {steps : List Step} (h : (extractSteps steps).size ≠ 1)
    (c : Cursor) : c.through? steps = none := by
  unfold extractSteps at h
  split at h
  · rename_i s _
    obtain ⟨keys, bys⟩ := s
    -- a chain goes on only through a `select` of one key, and that has one entry
    match keys with
    | [] => simp [through?]
    | [_] => exact absurd rfl h
    | _ :: _ :: _ => simp [through?]
  · simp [through?]
  · split at h <;> exact absurd rfl h

/-- From a tag on, a modulator is a chain and has one entry. -/
theorem Traversal.extract_rootedAt_of_size_ne_one {t : Traversal} (h : t.extract.size ≠ 1)
    {tag : String} (htag : tag ≠ "") : (t.rootedAt tag).extract = .single "" none := by
  obtain ⟨steps⟩ := t
  have hthrough : Cursor.current.through? (selectTag tag :: steps) = none := by
    rw [selectTag, Step.ofKind, Cursor.through?]
    exact Cursor.through?_of_size_ne_one h (.ofTag tag)
  rw [rootedAt, if_neg htag, extract]
  cases steps with
  | nil => exact absurd size_extractSteps_nil h
  | cons s rest => rw [extractSteps_of_two, hthrough]

/-- A `dedup` that is left out before an aggregate has one entry. -/
theorem GroupStep.dropPlainDedup_of_size_ne_one {steps : List Step}
    (h : (extractSteps steps).size ≠ 1) : dropPlainDedup steps = steps := by
  unfold extractSteps at h
  split at h
  · rfl
  · rename_i d l
    obtain ⟨keys, modulator⟩ := d
    cases keys with
    | nil => exact absurd rfl h
    | cons key keys => rfl
  · split at h <;> exact absurd rfl h

/-! ## Slots -/

namespace Slot

/-- The modulator of the slot is itself extracted. Otherwise it is followed from the record of a
tag. -/
def isDirect (s : Slot) : Bool := s.checked && s.tag == ""

variable {s : Slot}

theorem extraction_of_isDirect (h : s.isDirect = true) : s.extraction = s.modulator.extract := by
  rw [isDirect, Bool.and_eq_true, beq_iff_eq] at h
  rw [extraction, if_pos h.1, traversal, h.2, Traversal.rootedAt_empty]

/-- Away from the current record the slot does not see how many entries the modulator has. -/
theorem extraction_of_not_isDirect (h : s.isDirect = false) (hsize : s.modulator.extract.size ≠ 1) :
    ∃ tag, s.extraction = .single tag none := by
  unfold extraction
  split
  · rename_i hchecked
    have htag : s.tag ≠ "" := by
      intro htag
      simp [isDirect, hchecked, htag] at h
    exact ⟨"", Traversal.extract_rootedAt_of_size_ne_one hsize htag⟩
  · refine ⟨s.tag, congrArg _ ?_⟩
    rw [Traversal.exprAt?, Cursor.through?_of_size_ne_one hsize, Option.map_none]

end Slot

namespace Context

variable {c : Context}

theorem result_one_of_size_ne {x : Extraction} (h : x.size ≠ 1) :
    (c.one x).result = .error ⟨c.step, .notOneExpression x.size⟩ := by
  rw [one_of_size_ne h, result_fail]

theorem result_fill_of_size_ne {s : Slot} (h : s.extraction.size ≠ 1) :
    (c.fill s).result = .error ⟨c.step, .notOneExpression s.extraction.size⟩ := by
  rw [fill_of_size_ne h, result_fail]

theorem fill_of_not_isDirect {s : Slot} (h : s.isDirect = false)
    (hsize : s.modulator.extract.size ≠ 1) :
    s.expr? = none ∧
      c.fill s = c.materialize s.traversal (s.column c.step.position) s.number := by
  obtain ⟨tag, htag⟩ := s.extraction_of_not_isDirect h hsize
  have hexpr : s.expr? = none := by rw [Slot.expr?, htag, Extraction.single?_single]
  have hone : s.extraction.size = 1 := by rw [htag]; rfl
  exact ⟨hexpr, fill_of_none hone hexpr⟩

end Context

/-! ## Rules -/

/-- A rule comes to a modulator, with whether the modulator is itself extracted: nothing that the
rule does before fails. -/
inductive ModulatedStep.Consults (c : Context) : ModulatedStep → List Step → Bool → Prop
  | slot {m : ModulatedStep} {before after : List Slot} {s : Slot} {filled : List Resolved}
    (fault : m.fault? = none) (slots : m.slots c.config.policy = before ++ s :: after)
    (earlier : (Traced.traverse c.fill before).result = .ok filled) :
    Consults c m s.modulator.steps s.isDirect
  /-- The steps before an aggregate, with or without a `dedup` that is left out. -/
  | value {s : GroupStep} {before after : List Traversal} {steps rest : List Step} {r : Reducer}
    {labels : List String} {filled : List Resolved} {aggregates : List Aggregate}
    (keys : (Traced.traverse c.fill ((ModulatedStep.group s).slots c.config.policy)).result =
      .ok filled)
    (values : s.valueTraversals =
      before ++ ⟨steps ++ [⟨.elementary (.reduce r), labels⟩]⟩ :: after)
    (earlier : (Traced.traverse
      (fun (v, i) => GroupStep.aggregate c v (c.column .groupValue "" i)) before.zipIdx).result =
        .ok aggregates)
    (source : rest = steps ∨ rest = GroupStep.dropPlainDedup steps) :
    Consults c (.group s) rest true
  | whereTraversal (t : Traversal) : Consults c (.whereTraversal t) t.steps true
  | not (t : Traversal) : Consults c (.not t) t.steps true

section Rules

variable {c : Context} {e : LoweringError}

theorem ModulatedStep.Consults.head {m : ModulatedStep} {after : List Slot} (s : Slot)
    (hfault : m.fault? = none) (hslots : m.slots c.config.policy = s :: after) :
    m.Consults c s.modulator.steps s.isDirect := by
  have hfirst : m.slots c.config.policy = [] ++ s :: after := hslots
  exact .slot hfault hfirst rfl

theorem ModulatedStep.result_lowerIn_of_slot {m : ModulatedStep} {before after : List Slot}
    {s : Slot} {filled : List Resolved} (hfault : m.fault? = none)
    (hslots : m.slots c.config.policy = before ++ s :: after)
    (hbefore : (Traced.traverse c.fill before).result = .ok filled)
    (hs : (c.fill s).result = .error e) : (m.lowerIn c).result = .error e := by
  rw [lowerIn_eq, lowerParts, hfault, hslots]
  exact Traced.result_bind_eq_error.2 (.inl (Traced.traverse_eq_error hbefore hs))

theorem ModulatedStep.result_lowerIn_of_terminal {m : ModulatedStep} {filled : List Resolved}
    (hfault : m.fault? = none)
    (hfilled : (Traced.traverse c.fill (m.slots c.config.policy)).result = .ok filled)
    (hterminal : ∀ es, (m.terminal c es).result = .error e) : (m.lowerIn c).result = .error e := by
  rw [lowerIn_eq, lowerParts, hfault]
  refine Traced.result_bind_eq_error.2 (.inr ⟨filled, hfilled, ?_⟩)
  exact Traced.result_bind_eq_error.2 (.inl (hterminal _))

theorem Traversal.result_filterOperator_of_size_ne {t : Traversal} (h : t.extract.size ≠ 1)
    (filter : String → String) (join : JoinKind) :
    (t.filterOperator c filter join).result =
      .error ⟨c.step, .notOneExpression t.extract.size⟩ :=
  Traced.result_bind_eq_error.2 (.inl (Context.result_one_of_size_ne h))

namespace GroupStep

theorem result_aggregate_of_size_ne {steps : List Step}
    (h : (extractSteps (dropPlainDedup steps)).size ≠ 1) (r : Reducer) (labels : List String)
    (a : Alias) :
    (aggregate c ⟨steps ++ [⟨.elementary (.reduce r), labels⟩]⟩ a).result =
      .error ⟨c.step, .notOneExpression (extractSteps (dropPlainDedup steps)).size⟩ := by
  have hne : (dropPlainDedup steps).isEmpty = false := by
    cases hsteps : dropPlainDedup steps with
    | nil =>
      rw [hsteps] at h
      exact absurd size_extractSteps_nil h
    | cons s rest => rfl
  have hsource : (source c (dropPlainDedup steps)).result =
      .error ⟨c.step, .notOneExpression (extractSteps (dropPlainDedup steps)).size⟩ := by
    rw [source, hne, if_neg Bool.false_ne_true]
    exact Traced.result_bind_eq_error.2 (.inl (Context.result_one_of_size_ne h))
  simp only [aggregate, splitLast?, List.getLast?_append, List.getLast?_singleton, Option.some_or,
    Option.map_some, List.dropLast_concat]
  exact Traced.result_bind_eq_error.2 (.inl hsource)

theorem result_terminal_of_value {s : GroupStep} {before after : List Traversal} {v : Traversal}
    {aggregates : List Aggregate} (hvalues : s.valueTraversals = before ++ v :: after)
    (hbefore : (Traced.traverse
      (fun (v, i) => aggregate c v (c.column .groupValue "" i)) before.zipIdx).result =
        .ok aggregates)
    (hv : ∀ a, (aggregate c v a).result = .error e) (es : List String) :
    ((ModulatedStep.group s).terminal c es).result = .error e := by
  have hzip : s.valueTraversals.zipIdx =
      before.zipIdx ++ (v, before.length) :: after.zipIdx (before.length + 1) := by
    rw [hvalues, List.zipIdx_append, List.zipIdx_cons, Nat.zero_add]
  rw [ModulatedStep.terminal, hzip]
  exact Traced.result_bind_eq_error.2 (.inl (Traced.traverse_eq_error hbefore (hv _)))

end GroupStep

namespace ModulatedStep

/-- **A modulator that is itself extracted is refused unless it has one entry.** -/
theorem result_lowerIn_of_consults {m : ModulatedStep} {steps : List Step}
    (h : m.Consults c steps true) (hsize : (extractSteps steps).size ≠ 1) :
    (m.lowerIn c).result = .error ⟨c.step, .notOneExpression (extractSteps steps).size⟩ := by
  generalize hdirect : true = direct at h
  cases h with
  | @slot m before after s filled hfault hslots hbefore =>
    have hextraction := s.extraction_of_isDirect hdirect.symm
    have hne : s.extraction.size ≠ 1 := by
      rw [hextraction]
      exact hsize
    have hfill := Context.result_fill_of_size_ne (c := c) hne
    rw [hextraction] at hfill
    exact result_lowerIn_of_slot hfault hslots hbefore hfill
  | @value s before after prior _ r labels filled aggregates hkeys hvalues hbefore hsource =>
    -- a `dedup` that is left out has one entry, so here all steps are the source
    have hdrop : steps = GroupStep.dropPlainDedup prior := by
      rcases hsource with rfl | hdrop
      · exact (GroupStep.dropPlainDedup_of_size_ne_one hsize).symm
      · exact hdrop
    rw [hdrop] at hsize ⊢
    exact result_lowerIn_of_terminal rfl hkeys (GroupStep.result_terminal_of_value hvalues hbefore
      (GroupStep.result_aggregate_of_size_ne hsize r labels))
  | whereTraversal t =>
    exact result_lowerIn_of_terminal rfl rfl fun _ => t.result_filterOperator_of_size_ne hsize _ _
  | not t =>
    exact result_lowerIn_of_terminal rfl rfl fun _ => t.result_filterOperator_of_size_ne hsize _ _

/-- **A modulator that does not have one entry is refused just where it is itself extracted.** The
step is named in the failure. Anywhere else, which is in a slot, the modulator is lowered as a
subquery. -/
theorem lower_of_size_ne_one {config : Config} {m : ModulatedStep} {position : Position}
    {steps : List Step} {direct : Bool}
    (h : m.Consults ⟨fun t scope => t.build config scope, config, ⟨m.name, position⟩⟩ steps direct)
    (hsize : (extractSteps steps).size ≠ 1) :
    (direct = true → (m.lower config position).result.mapError LoweringError.report =
        .error (.invalidStructure (StepRef.text ⟨m.name, position⟩)
          ("by() must yield exactly one expression, got " ++ (extractSteps steps).size.repr))) ∧
      (direct = false → ∃ s ∈ m.slots config.policy, s.modulator.steps = steps ∧ s.expr? = none ∧
        Context.fill ⟨fun t scope => t.build config scope, config, ⟨m.name, position⟩⟩ s =
          Context.materialize ⟨fun t scope => t.build config scope, config, ⟨m.name, position⟩⟩
            s.traversal (s.column position) s.number) := by
  constructor
  · rintro rfl
    rw [lower_eq, result_lowerIn_of_consults h hsize]
    rfl
  · intro hdirect
    cases h with
    | @slot m before after s filled hfault hslots hbefore =>
      have hmem : s ∈ m.slots config.policy := by
        rw [hslots]
        exact List.mem_append_right _ List.mem_cons_self
      exact ⟨s, hmem, rfl, Context.fill_of_not_isDirect hdirect hsize⟩
    | value => cases hdirect
    | whereTraversal => cases hdirect
    | not => cases hdirect

/-- A modulator of two values. -/
def pair : Traversal := Traversal.identity.selectBy ["x", "y"] []

/-- Compares the pairs of two records, the first being that of a tag or the current one. -/
def comparePairs (startKey : Option String) : ModulatedStep :=
  .wherePredicate ⟨startKey, .compareTo .eq .null, ["b"], [pair]⟩

theorem lower_of_size_ne_one_comparePairs :
    let position := Position.root.child 0
    let c : Context := ⟨fun t scope => t.build .standard scope, .standard, ⟨"where", position⟩⟩
    ((comparePairs none).Consults c pair.steps true ∧ (extractSteps pair.steps).size ≠ 1) ∧
      ((comparePairs none).lower .standard position).result.mapError LoweringError.report =
        .error (.invalidStructure "where@0" "by() must yield exactly one expression, got 2") := by
  intro position c
  have hconsults : (comparePairs none).Consults c pair.steps true :=
    .head ⟨"", pair, true, .subquery, 0⟩ rfl rfl
  have hsize : (extractSteps pair.steps).size = 2 := by cbv
  have hne : (extractSteps pair.steps).size ≠ 1 := by rw [hsize]; decide
  have hrefused := (lower_of_size_ne_one (m := comparePairs none) hconsults hne).1 rfl
  rw [hsize] at hrefused
  exact ⟨⟨hconsults, hne⟩, hrefused⟩

theorem pair_accepted :
    (extractSteps pair.steps).size = 2 ∧
      ∀ m ∈ [comparePairs (some "a"), .select ⟨["x"], [pair]⟩, .dedup ⟨[], some pair⟩],
        m.Consults
            ⟨fun t scope => t.build .standard scope, .standard, ⟨m.name, Position.root.child 0⟩⟩
            pair.steps false ∧
          (m.lower .standard (Position.root.child 0)).result.isOk = true := by
  refine ⟨by cbv, ?_⟩
  simp only [List.forall_mem_cons]
  refine ⟨⟨?_, by cbv⟩, ⟨?_, by cbv⟩, ⟨?_, by cbv⟩, fun m hm => absurd hm List.not_mem_nil⟩
  · exact .head ⟨"a", pair, true, .subquery, 0⟩ rfl rfl
  · exact .head ⟨"x", pair, false, .tagSubquery, 0⟩ rfl rfl
  · exact .head ⟨"", pair, false, .subquery, 0⟩ rfl rfl

end ModulatedStep
end Rules
end TraversalPlan

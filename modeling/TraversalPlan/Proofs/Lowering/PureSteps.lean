import TraversalPlan.Proofs.Lowering.Policy

/-!
# Lowering what is pure

A traversal that has an expression could as well be lowered as a subquery: no step of a pure chain
fails. Only a lone `select` or `dedup` may be refused, since it counts its keys and the extraction
does not. The entries of a repeated key fall together, and one entry is left that has an expression
(**`build_of_single?`**).

* `Step.Unfailing`: a step is lowered whatever its context.
* `unfailing_of_through?`: the steps of a pure chain are.
* `Traversal.repeatedKeys?`: what a lone `select` or `dedup` is refused for.
* `Traversal.buildEnding_of_unfailing`, `Traversal.buildEnding_of_failing`: whole traversals.
-/

namespace TraversalPlan

/-! ## Rules without subqueries -/

section Rules

variable {c : Context}

theorem ModulatedStep.lowerIn_of_pure {m : ModulatedStep} (hfault : m.fault? = none)
    (hslots : ∀ s ∈ m.slots c.config.policy, s.expr?.isSome)
    (hterminal : ∀ es, ∃ o, (m.terminal c es).result = .ok o) :
    ∃ ops, (m.lowerIn c).result = .ok ops := by
  let filled : Slot → Resolved := fun s => ⟨none, s.expr?.getD ""⟩
  have hfilled : List.Forall₂ (fun s r => (c.fill s).result = .ok r) (m.slots c.config.policy)
      ((m.slots c.config.policy).map filled) := by
    rw [List.forall₂_map_right_iff, List.forall₂_same]
    intro s hs
    obtain ⟨e, he⟩ := Option.isSome_iff_exists.1 (hslots s hs)
    rw [Context.fill_of_expr? he]
    simp [filled, he]
  obtain ⟨o, ho⟩ := hterminal (((m.slots c.config.policy).map filled).map Resolved.expression)
  exact ⟨_, lowerIn_eq_ok.2 ⟨hfault, _, o, hfilled, ho, rfl⟩⟩

theorem ModulatedStep.lowerIn_of_fault {m : ModulatedStep} {fault : Fault}
    (h : m.fault? = some fault) : (m.lowerIn c).result = .error ⟨c.step, fault⟩ := by
  rw [lowerIn_eq, lowerParts, h]
  rfl

end Rules

/-! ## Steps that never fail -/

/-- The step is lowered under any position and configuration, however subqueries are lowered. -/
def Step.Unfailing (s : Step) : Prop :=
  ∀ build config position, ∃ ops, (s.lower build config position).result = .ok ops

theorem Step.unfailing_of_kind {k : StepKind} {labels : List String}
    (h : ∀ c : Context, ∃ ops, (k.lowerIn c).result = .ok ops) : Step.Unfailing ⟨k, labels⟩ := by
  intro build config position
  obtain ⟨own, hown⟩ := h ⟨build, config, ⟨k.name, position⟩⟩
  exact ⟨_, Step.lower_eq_ok.2 ⟨own, hown, rfl⟩⟩

theorem ElementaryStep.lower_of_step? {s : ElementaryStep} {c d : Cursor} (h : c.step? s = some d)
    (position : Position) : ∃ ops, s.lower position = .ok ops := by
  refine ⟨_, lower_eq_ok.2 ⟨?_, rfl⟩⟩
  cases s with
  | range lower upper => cases h
  | _ => rfl

theorem SelectStep.unfailing_of_single {key : String} {bys : List Traversal} {labels : List String}
    (h : (((SelectStep.mk [key] bys).modulatorFor 0).exprAt? key).isSome) :
    Step.Unfailing ⟨.modulated (.select ⟨[key], bys⟩), labels⟩ := by
  refine Step.unfailing_of_kind fun c => ?_
  refine ModulatedStep.lowerIn_of_pure (m := .select ⟨[key], bys⟩) ?_ ?_ fun es => ⟨_, rfl⟩
  · simp [ModulatedStep.fault?]
  · intro s hs
    obtain rfl : s = ⟨key, (SelectStep.mk [key] bys).modulatorFor 0, false, .tagSubquery, 0⟩ := by
      simpa [ModulatedStep.slots, SelectStep.slots] using hs
    rw [Slot.expr?, Slot.extraction, if_neg Bool.false_ne_true, Extraction.single?_single]
    exact h

theorem DedupStep.unfailing_of_single {s : DedupStep} {tag : String} {labels : List String}
    (htags : s.tags = [tag]) (h : (s.modulatorOrIdentity.exprAt? tag).isSome) :
    Step.Unfailing ⟨.modulated (.dedup s), labels⟩ := by
  refine Step.unfailing_of_kind fun c => ?_
  refine ModulatedStep.lowerIn_of_pure (m := .dedup s) ?_ ?_ fun es => ⟨_, rfl⟩
  · simp [ModulatedStep.fault?, htags]
  · intro slot hslot
    obtain rfl : slot = ⟨tag, s.modulatorOrIdentity, false, .subquery, 0⟩ := by
      simpa [ModulatedStep.slots, DedupStep.slots, htags] using hslot
    rw [Slot.expr?, Slot.extraction, if_neg Bool.false_ne_true, Extraction.single?_single]
    exact h

/-- **The steps of a pure chain never fail.** -/
theorem unfailing_of_through? {steps : List Step} {c d : Cursor} (h : c.through? steps = some d) :
    ∀ s ∈ steps, s.Unfailing := by
  induction steps using moves?.induct generalizing c d with
  | case1 => exact fun s hs => absurd hs List.not_mem_nil
  | case2 s labels rest ih =>
    rw [Cursor.through?] at h
    obtain ⟨b, hb, hd⟩ := Option.bind_eq_some_iff.1 h
    refine List.forall_mem_cons.2 ⟨Step.unfailing_of_kind fun context => ?_, ih hd⟩
    obtain ⟨ops, hops⟩ := ElementaryStep.lower_of_step? hb context.step.position
    exact ⟨ops, StepKind.lowerIn_elementary_eq_ok.2 hops⟩
  | case3 key labels rest ih =>
    rw [Cursor.through?] at h
    refine List.forall_mem_cons.2 ⟨SelectStep.unfailing_of_single ?_, ih h⟩
    have hidentity : (SelectStep.mk [key] []).modulatorFor 0 = .identity := rfl
    rw [hidentity, Traversal.exprAt?_identity, Option.isSome_some]
  | case4 key steps bys labels rest _ ih =>
    rw [Cursor.through?] at h
    obtain ⟨b, hb, hd⟩ := Option.bind_eq_some_iff.1 h
    refine List.forall_mem_cons.2 ⟨SelectStep.unfailing_of_single ?_, ih hd⟩
    have hfirst : (SelectStep.mk [key] (⟨steps⟩ :: bys)).modulatorFor 0 = ⟨steps⟩ := by
      simp [SelectStep.modulatorFor]
    rw [hfirst, Traversal.exprAt?, hb, Option.map_some, Option.isSome_some]
  | case5 steps h₁ h₂ h₃ h₄ =>
    rw [Cursor.through?] at h
    · cases h
    all_goals assumption

/-! ## Repeated keys -/

/-- What a lone `select` or `dedup` is refused for if its entries have fallen together. -/
def Traversal.repeatedKeys? : Traversal → Option Fault
  | ⟨[⟨.modulated (.select s), _⟩]⟩ => if s.keys.Nodup then none else some .repeatedSelectKeys
  | ⟨[⟨.modulated (.dedup s), _⟩]⟩ => if s.tags.Nodup then none else some .repeatedDedupKeys
  | _ => none

theorem Extraction.eq_of_single?_ofList {es : List (String × Option String)} {e : String}
    (hdistinct : (es.map Prod.fst).Nodup) (h : Extraction.single? (.ofList es) = some e) :
    ∃ key, es = [(key, some e)] := by
  unfold single? at h
  rw [OrderedMap.entries_ofList hdistinct] at h
  split at h
  · rename_i key e'
    obtain rfl := Option.some.inj h
    exact ⟨key, rfl⟩
  · cases h

theorem SelectStep.unfailing_of_single? {s : SelectStep} {labels : List String} {e : String}
    (h : s.extract.single? = some e) (hdistinct : s.keys.Nodup) :
    Step.Unfailing ⟨.modulated (.select s), labels⟩ := by
  obtain ⟨keys, bys⟩ := s
  obtain ⟨key, hentries⟩ := Extraction.eq_of_single?_ofList (by rwa [map_fst_mapIdx]) h
  have hkeys : keys = [key] := by rw [← map_fst_mapIdx keys _, hentries]; rfl
  subst hkeys
  have hexpr : ((SelectStep.mk [key] bys).modulatorFor 0).exprAt? key = some e := by
    simpa using hentries
  exact SelectStep.unfailing_of_single (Option.isSome_of_eq_some hexpr)

theorem DedupStep.unfailing_of_single? {s : DedupStep} {labels : List String} {e : String}
    (h : s.extract.single? = some e) (hdistinct : s.tags.Nodup) :
    Step.Unfailing ⟨.modulated (.dedup s), labels⟩ := by
  obtain ⟨tag, hentries⟩ := Extraction.eq_of_single?_ofList (by rwa [map_fst_map]) h
  have htags : s.tags = [tag] := by
    rw [← map_fst_map s.tags s.modulatorOrIdentity.exprAt?, hentries]
    rfl
  have hexpr : s.modulatorOrIdentity.exprAt? tag = some e := by
    simpa [htags] using hentries
  exact DedupStep.unfailing_of_single htags (Option.isSome_of_eq_some hexpr)

/-- **The steps of a pure traversal never fail**, unless it repeats the keys of a lone step. -/
theorem Traversal.unfailing_of_single? {t : Traversal} {e : String}
    (h : t.extract.single? = some e) (hkeys : t.repeatedKeys? = none) :
    ∀ s ∈ t.steps, s.Unfailing := by
  obtain ⟨steps⟩ := t
  change (extractSteps steps).single? = some e at h
  show ∀ s ∈ steps, s.Unfailing
  unfold extractSteps at h
  split at h
  · rename_i s labels
    refine List.forall_mem_singleton.2 (SelectStep.unfailing_of_single? h ?_)
    by_contra hrepeated
    simp [repeatedKeys?, hrepeated] at hkeys
  · rename_i s labels
    refine List.forall_mem_singleton.2 (DedupStep.unfailing_of_single? h ?_)
    by_contra hrepeated
    simp [repeatedKeys?, hrepeated] at hkeys
  · split at h
    · rename_i d hd
      exact unfailing_of_through? hd
    · cases h

theorem Traversal.lower_of_repeatedKeys? {t : Traversal} {fault : Fault}
    (h : t.repeatedKeys? = some fault) : ∃ s, t.steps = [s] ∧ ∀ build config position,
      (s.lower build config position).result = .error ⟨⟨s.name, position⟩, fault⟩ := by
  have lone : ∀ (m : ModulatedStep) (labels : List String), m.fault? = some fault →
      ∀ build config position, (Step.lower build config ⟨.modulated m, labels⟩ position).result =
        .error ⟨⟨m.name, position⟩, fault⟩ :=
    fun m labels hm build config position =>
      Traced.result_bind_eq_error.2 (.inl (ModulatedStep.lowerIn_of_fault hm))
  unfold repeatedKeys? at h
  split at h
  · rename_i s labels
    split at h
    · cases h
    · rename_i hrepeated
      have hkeys : s.keys ≠ [] := fun hnil => hrepeated (hnil ▸ List.nodup_nil)
      have hfault : (ModulatedStep.select s).fault? = some fault := by
        rw [← h, ModulatedStep.fault?, if_neg hkeys, if_pos hrepeated]
      exact ⟨_, rfl, lone _ labels hfault⟩
  · rename_i s labels
    split at h
    · cases h
    · rename_i hrepeated
      have hfault : (ModulatedStep.dedup s).fault? = some fault := by
        rw [← h, ModulatedStep.fault?, if_pos hrepeated]
      exact ⟨_, rfl, lone _ labels hfault⟩
  · cases h

namespace Traversal

variable {t : Traversal}

/-! ## Whole traversals -/

/-- **A traversal whose steps never fail is lowered**, in whatever order its steps end. -/
theorem buildEnding_of_unfailing (h : ∀ s ∈ t.steps, s.Unfailing) (order : List Nat)
    (config : Config) (scope : Position) :
    ∃ plan, (t.buildEnding order config scope).result = .ok plan := by
  have hparts : ∀ build, ∃ parts, List.Forall₂ (fun x ops =>
      (Step.lower build config x.1 (scope.child x.2)).result = .ok ops) t.steps.zipIdx parts := by
    intro build
    choose! ops hops using fun s hs position => h s hs build config position
    refine ⟨t.steps.zipIdx.map fun x => ops x.1 (scope.child x.2), ?_⟩
    rw [List.forall₂_map_right_iff, List.forall₂_same]
    exact fun x hx => hops x.1 (List.fst_mem_of_mem_zipIdx hx) _
  unfold buildEnding
  split
  · obtain ⟨parts, hlowered⟩ := hparts (Builder.ofDepth config t.depth)
    have hgather : gather order ((t.outcomes config scope).map Traced.result) = .ok parts :=
      gather_eq_ok.2 (forall₂_ok_iff.2 hlowered)
    exact ⟨⟨parts.flatten⟩, by rw [result_buildFinishing, hgather]; rfl⟩
  · obtain ⟨parts, hlowered⟩ := hparts (Builder.inner config t.depth)
    refine ⟨⟨parts.flatten⟩, ?_⟩
    rw [buildInOrder, Builder.ofDepth_eq_ofSteps]
    exact Builder.ofSteps_eq_ok.2 ⟨parts, hlowered, rfl⟩

theorem buildEnding_of_failing {s : Step} {config : Config} {scope : Position} {e : LoweringError}
    (hsteps : t.steps = [s])
    (h : ∀ build, (s.lower build config (scope.child 0)).result = .error e) (order : List Nat) :
    (t.buildEnding order config scope).result = .error e := by
  unfold buildEnding
  split
  · have houtcomes : (t.outcomes config scope).map Traced.result = [.error e] := by
      rw [outcomes, hsteps, List.zipIdx_singleton, List.map_singleton, List.map_singleton, h]
    rw [result_buildFinishing, houtcomes]
    cases hgather : gather order [(.error e : Except LoweringError (List Operator))] with
    | ok parts =>
      have hok := gather_eq_ok.1 hgather
      cases parts <;> cases hok
    | error e' =>
      have hmem := mem_of_gather_eq_error hgather
      obtain rfl := Except.error.inj (List.mem_singleton.1 hmem)
      rfl
  · rw [buildInOrder, Builder.ofDepth_eq_ofSteps, Builder.ofSteps, hsteps, List.zipIdx_singleton,
      Traced.traverse_singleton]
    exact Traced.result_bind_eq_error.2 (.inl (Traced.result_bind_eq_error.2 (.inl (h _))))

/-- **A pure traversal is lowered under every configuration and scope**, and in whatever order its
steps end, just if it is not a lone `select` or `dedup` that repeats a key. Such a step is refused
where it is lowered, although every rule takes it for its expression where it is a modulator. -/
theorem build_of_single? {e : String} (h : t.extract.single? = some e) (order : List Nat)
    (config : Config) (scope : Position) :
    (t.repeatedKeys? = none → ∃ plan, (t.buildEnding order config scope).result = .ok plan) ∧
    (∀ fault, t.repeatedKeys? = some fault → ∃ s, t.steps = [s] ∧
      (t.buildEnding order config scope).result = .error ⟨⟨s.name, scope.child 0⟩, fault⟩) ∧
    ∀ (c : Context) (sub : Nat), (c.resolve t sub).result = .ok ⟨none, e⟩ := by
  refine ⟨fun hkeys => ?_, fun fault hkeys => ?_, fun c sub => ?_⟩
  · exact buildEnding_of_unfailing (unfailing_of_single? h hkeys) order config scope
  · obtain ⟨s, hsteps, hfails⟩ := lower_of_repeatedKeys? hkeys
    exact ⟨s, hsteps, buildEnding_of_failing hsteps (fun build => hfails build config _) order⟩
  · have hslot : Slot.expr? ⟨"", t, true, .subquery, sub⟩ = some e := by
      rw [Slot.expr?, Slot.extraction, if_pos rfl, Slot.traversal, rootedAt_empty, h]
    rw [← Context.fill_current, Context.fill_of_expr? hslot]
    rfl

/-- A test of a property of a tagged record, which is found by a modulator. -/
def isKnown : Traversal :=
  (identity.selectBy ["a"] [identity.values "known"]).is (.eq (.bool true))

theorem build_of_single?_isKnown :
    isKnown.extract.single? = some "@a.known == true" ∧
      ∃ plan, (isKnown.buildEnding [1, 0] ⟨.strict, 7, true⟩ .root).result = .ok plan := by
  have hpure : isKnown.extract.single? = some "@a.known == true" := by cbv
  have hkeys : isKnown.repeatedKeys? = none := by cbv
  have hlowered := (build_of_single? hpure [1, 0] ⟨.strict, 7, true⟩ .root).1 hkeys
  exact ⟨hpure, hlowered⟩

/-- A `select` that repeats its key sorts records, and is refused by itself. -/
theorem repeated_key_refused :
    let t := identity.selectBy ["a", "a"] []
    t.extract.single? = some "@a" ∧
      (t.build .standard .root).result.mapError LoweringError.report =
        .error (.invalidStructure "select@0" "select() keys must be distinct") ∧
      (ModulatedStep.lower .standard (.order ⟨[⟨t, .ascending⟩]⟩)
        (Position.root.child 0)).result.isOk = true := by
  exact ⟨by cbv, rfl, by cbv⟩

end Traversal
end TraversalPlan

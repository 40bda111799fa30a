import TraversalPlan.Proofs.Lowering.Slots
import TraversalPlan.Proofs.Lowering.Success

/-!
# Subqueries are lowered like whole queries

Lowering is bounded by the nesting depth of a traversal. The bound is never felt: a deeper one changes
nothing (**`Builder.ofDepth_congr`**), since a subquery is nested less deep than the step that runs
it. So a step lowers its subqueries just as they are lowered by themselves
(**`ModulatedStep.lower_eq`**).

* `ModulatedStep.modulators`: the sub-traversals in the slots of a step. A slot that needs a subquery
  holds one of them, and is nested less deep than the step (`ModulatedStep.depth_of_mem_slots`).
* `ModulatedStep.lowerIn_congr`: what a rule asks of the lowering of subqueries.
-/

namespace TraversalPlan

/-! ## Depth of the parts of a traversal -/

theorem depth_le_stepsDepth {s : Step} {steps : List Step} (h : s ∈ steps) :
    s.depth ≤ stepsDepth steps := by
  induction steps with
  | nil => cases h
  | cons s' rest ih =>
    rw [stepsDepth]
    rcases List.mem_cons.1 h with rfl | h
    · exact Nat.le_max_left _ _
    · exact Nat.le_trans (ih h) (Nat.le_max_right _ _)

theorem depth_lt_nestedDepth {t : Traversal} {ts : List Traversal} (h : t ∈ ts) :
    t.depth < nestedDepth ts := by
  induction ts with
  | nil => cases h
  | cons t' rest ih =>
    rw [nestedDepth]
    rcases List.mem_cons.1 h with rfl | h
    · omega
    · have := ih h
      omega

theorem depth_lt_comparatorsDepth {k : Comparator} {ks : List Comparator} (h : k ∈ ks) :
    k.key.depth < comparatorsDepth ks := by
  induction ks with
  | nil => cases h
  | cons k' rest ih =>
    obtain ⟨t, order⟩ := k'
    rw [comparatorsDepth]
    rcases List.mem_cons.1 h with rfl | h
    · dsimp only
      omega
    · have := ih h
      omega

theorem Traversal.depth_eq (t : Traversal) : t.depth = stepsDepth t.steps := by
  cases t
  rfl

theorem Traversal.depth_rootedAt (t : Traversal) (tag : String) :
    (t.rootedAt tag).depth = t.depth := by
  unfold rootedAt
  split
  · rfl
  · rw [depth_eq, depth_eq, stepsDepth]
    exact Nat.zero_max _

/-! ## Slots that need a subquery -/

theorem Extraction.single?_single (tag : String) (e : Option String) :
    Extraction.single? (.single tag e) = e := by
  cases e <;> rfl

theorem Traversal.exprAt?_identity (tag : String) :
    identity.exprAt? tag = some (Expr.subject tag none) := by
  simp [exprAt?, identity, Cursor.through?, Cursor.expr, Cursor.ofTag]

theorem Traversal.single?_extract_rootedAt_identity (tag : String) :
    (identity.rootedAt tag).extract.single? = some (Expr.subject tag none) := by
  by_cases htag : tag = ""
  · rw [htag, rootedAt_empty]
    simp [extract, extractSteps, identity, Cursor.through?, Extraction.single?_single,
      Cursor.expr, Cursor.current, Cursor.ofTag]
  · have hselect : (identity.rootedAt tag).extract =
        .ofList [(tag, identity.exprAt? tag)] := by
      rw [rootedAt, if_neg htag]
      rfl
    rw [hselect, exprAt?_identity]
    rfl

theorem Slot.expr?_of_identity {s : Slot} (h : s.modulator = .identity) :
    s.expr? = some (Expr.subject s.tag none) := by
  unfold expr? extraction traversal
  rw [h]
  split
  · exact Traversal.single?_extract_rootedAt_identity s.tag
  · rw [Extraction.single?_single, Traversal.exprAt?_identity]

theorem forall_mem_slotsOf {P : Traversal → Prop} {ts : List Traversal} (h : ∀ t ∈ ts, P t) :
    ∀ s ∈ slotsOf ts, P s.modulator := by
  rintro s hs
  obtain ⟨x, hx, rfl⟩ := List.mem_map.1 hs
  exact h x.1 (List.fst_mem_of_mem_zipIdx hx)

theorem WherePredicateStep.forall_mem_slotsFrom {P : Traversal → Prop} {bys : List Traversal}
    (policy : ModulatorPolicy) (hidentity : P .identity) (hbys : ∀ t ∈ bys, P t)
    (i number : Nat) (tags : List String) :
    ∀ s ∈ slotsFrom bys policy i number tags, P s.modulator := by
  induction tags generalizing i number with
  | nil => exact fun s hs => absurd hs List.not_mem_nil
  | cons tag tags ih =>
    rw [slotsFrom]
    cases ht : Modulators.at? bys policy i with
    | none => exact fun s hs => absurd hs List.not_mem_nil
    | some t =>
      refine List.forall_mem_cons.2 ⟨?_, ih _ _⟩
      rcases Modulators.eq_identity_or_mem ht with rfl | hmem
      · exact hidentity
      · exact hbys t hmem

namespace ModulatedStep

/-- The sub-traversals that stand in slots of the step. -/
def modulators : ModulatedStep → List Traversal
  | select s => s.bys
  | dedup s => s.modulator.toList
  | sample s => s.modulator.toList
  | order s => s.comparators.map Comparator.key
  | group s => s.keys
  | wherePredicate s => s.bys
  | whereTraversal t => [t]
  | not t => [t]

/-- **A slot holds a modulator of the step**, or none. -/
theorem eq_identity_or_mem_modulators {m : ModulatedStep} {policy : ModulatorPolicy} :
    ∀ s ∈ m.slots policy, s.modulator = .identity ∨ s.modulator ∈ m.modulators := by
  let P : Traversal → Prop := fun t => t = .identity ∨ t ∈ m.modulators
  show ∀ s ∈ m.slots policy, P s.modulator
  cases m with
  | select step =>
    intro s hs
    obtain ⟨x, -, rfl⟩ := List.mem_map.1 hs
    exact SelectStep.modulatorFor_eq_identity_or_mem _ x.2
  | dedup step =>
    intro s hs
    obtain ⟨x, -, rfl⟩ := List.mem_map.1 hs
    obtain ⟨keys, _ | t⟩ := step
    · exact .inl rfl
    · exact .inr (List.mem_singleton.2 rfl)
  | sample step =>
    refine forall_mem_slotsOf (P := P) (List.forall_mem_singleton.2 ?_)
    obtain ⟨amount, seed, _ | t⟩ := step
    · exact .inl rfl
    · exact .inr (List.mem_singleton.2 rfl)
  | order step =>
    refine forall_mem_slotsOf (P := P) (List.forall_mem_map.2 fun k hk => ?_)
    unfold OrderStep.sortKeys at hk
    split at hk
    · obtain rfl := List.mem_singleton.1 hk
      exact .inl rfl
    · exact .inr (List.mem_map_of_mem hk)
  | group step =>
    refine forall_mem_slotsOf (P := P) fun t ht => ?_
    unfold GroupStep.keyTraversals at ht
    split at ht
    · exact .inl (List.mem_singleton.1 ht)
    · exact .inr ht
  | wherePredicate step =>
    exact WherePredicateStep.forall_mem_slotsFrom (P := P) policy (.inl rfl)
      (fun _ => .inr) 0 0 _
  | whereTraversal t => exact fun s hs => absurd hs List.not_mem_nil
  | not t => exact fun s hs => absurd hs List.not_mem_nil

theorem depth_of_mem_modulators {m : ModulatedStep} {t : Traversal} (h : t ∈ m.modulators) :
    t.depth < m.depth := by
  cases m with
  | select s =>
    obtain ⟨keys, bys⟩ := s
    exact depth_lt_nestedDepth h
  | dedup s =>
    obtain ⟨keys, _ | t'⟩ := s
    · cases h
    · obtain rfl := List.mem_singleton.1 h
      exact Nat.lt_succ_self _
  | sample s =>
    obtain ⟨amount, seed, _ | t'⟩ := s
    · cases h
    · obtain rfl := List.mem_singleton.1 h
      exact Nat.lt_succ_self _
  | order s =>
    obtain ⟨comparators⟩ := s
    obtain ⟨k, hk, rfl⟩ := List.mem_map.1 h
    exact depth_lt_comparatorsDepth hk
  | group s =>
    obtain ⟨keys, values, count⟩ := s
    exact Nat.lt_of_lt_of_le (depth_lt_nestedDepth h) (Nat.le_max_left _ _)
  | wherePredicate s =>
    obtain ⟨startKey, p, selectKeys, bys⟩ := s
    exact depth_lt_nestedDepth h
  | whereTraversal t' =>
    obtain rfl := List.mem_singleton.1 h
    exact Nat.lt_succ_self _
  | not t' =>
    obtain rfl := List.mem_singleton.1 h
    exact Nat.lt_succ_self _

/-- A slot that needs a subquery holds a traversal nested less deep than the step. -/
theorem depth_of_mem_slots {m : ModulatedStep} {policy : ModulatorPolicy} {s : Slot}
    (hs : s ∈ m.slots policy) (hnone : s.expr? = none) : s.traversal.depth < m.depth := by
  rw [Slot.traversal, Traversal.depth_rootedAt]
  rcases eq_identity_or_mem_modulators s hs with hidentity | hmem
  · rw [Slot.expr?_of_identity hidentity] at hnone
    cases hnone
  · exact depth_of_mem_modulators hmem

end ModulatedStep

/-! ## What a rule asks of the lowering of subqueries -/

section Rules

variable {c : Context} {build : Builder}

theorem Context.fill_congr {s : Slot}
    (h : s.expr? = none → ∀ i, c.build s.traversal (c.step.position.child i) =
      build s.traversal (c.step.position.child i)) :
    c.fill s = { c with build }.fill s := by
  by_cases hsize : s.extraction.size = 1
  · cases he : s.expr? with
    | some e => rw [fill_of_expr? he, fill_of_expr? he]
    | none =>
      rw [fill_of_none hsize he, fill_of_none hsize he, materialize, materialize, h he]
  · rw [fill_of_size_ne hsize, fill_of_size_ne hsize]
    rfl

theorem ModulatedStep.terminal_congr {m : ModulatedStep}
    (h : ∀ t i, t.depth < m.depth →
      c.build t (c.step.position.child i) = build t (c.step.position.child i)) (es : List String) :
    m.terminal c es = m.terminal { c with build } es := by
  have hfilter : ∀ (t : Traversal) filter join, m.depth = t.depth + 1 →
      t.filterOperator c filter join = t.filterOperator { c with build } filter join := by
    intro t filter join hdepth
    unfold Traversal.filterOperator Context.existence
    rw [h t 0 (by omega)]
    rfl
  cases m with
  | whereTraversal t => exact hfilter t _ _ rfl
  | not t => exact hfilter t _ _ rfl
  | _ => rfl

/-- **A rule lowers nothing but subqueries nested less deep than the step.** -/
theorem ModulatedStep.lowerIn_congr {m : ModulatedStep}
    (h : ∀ t i, t.depth < m.depth →
      c.build t (c.step.position.child i) = build t (c.step.position.child i)) :
    m.lowerIn c = m.lowerIn { c with build } := by
  rw [lowerIn_eq, lowerIn_eq]
  unfold lowerParts
  have hslots : Traced.traverse c.fill (m.slots c.config.policy) =
      Traced.traverse { c with build }.fill (m.slots c.config.policy) := by
    refine Traced.traverse_congr fun s hs => Context.fill_congr fun hnone i => h _ _ ?_
    exact depth_of_mem_slots hs hnone
  have hterminal := m.terminal_congr h
  rw [hslots]
  simp only [hterminal]
  rfl

end Rules

/-! ## Steps and traversals -/

theorem Step.lower_congr {build build' : Builder} {config : Config} {s : Step} {position : Position}
    (h : ∀ t i, t.depth < s.depth → build t (position.child i) = build' t (position.child i)) :
    s.lower build config position = s.lower build' config position := by
  obtain ⟨kind, labels⟩ := s
  have hkind : ∀ step : StepRef, step.position = position →
      kind.lowerIn ⟨build, config, step⟩ = kind.lowerIn ⟨build', config, step⟩ := by
    rintro step rfl
    cases kind with
    | elementary s => rfl
    | modulated m => exact ModulatedStep.lowerIn_congr (c := ⟨build, config, step⟩) h
  unfold lower
  simp only [hkind]

namespace Builder

theorem ofSteps_congr {build build' : Builder} {config : Config} {t : Traversal} {scope : Position}
    (h : ∀ t' p i, t'.depth < t.depth → build t' (Position.child p i) = build' t' (p.child i)) :
    ofSteps build config t scope = ofSteps build' config t scope := by
  unfold ofSteps
  rw [Traced.traverse_congr fun x hx => Step.lower_congr fun t' i ht' => h t' _ i ?_]
  have hdepth := depth_le_stepsDepth (List.fst_mem_of_mem_zipIdx hx)
  rw [t.depth_eq]
  omega

/-- **A deeper bound changes nothing.** -/
theorem ofDepth_congr (config : Config) {n k : Nat} {t : Traversal} (hn : t.depth ≤ n)
    (hk : t.depth ≤ k) (scope : Position) :
    ofDepth config n t scope = ofDepth config k t scope := by
  induction n generalizing k t scope with
  | zero =>
    rw [ofDepth_eq_ofSteps, ofDepth_eq_ofSteps]
    exact ofSteps_congr fun t' p i ht' => absurd ht' (by omega)
  | succ n ih =>
    rw [ofDepth_eq_ofSteps, ofDepth_eq_ofSteps]
    refine ofSteps_congr fun t' p i ht' => ?_
    -- a traversal inside another leaves at least one level of the bound
    obtain ⟨k, rfl⟩ : ∃ k', k = k' + 1 := ⟨k - 1, by omega⟩
    exact ih (by omega) (by omega) (p.child i)

end Builder

/-- The steps are lowered one after the other unless those of a whole query are lowered at the same
time. -/
theorem Traversal.build_of_sequential {config : Config} {t : Traversal} {scope : Position}
    (sequential : (config.parallel && scope.isRoot) = false) :
    t.build config scope = t.buildInOrder config scope := by
  rw [build, buildEnding, sequential, if_neg Bool.false_ne_true]

theorem Traversal.sequential_child (config : Config) (p : Position) (i : Nat) :
    (config.parallel && (p.child i).isRoot) = false := by
  simp [Position.isRoot]

theorem Traversal.build_child (config : Config) {n : Nat} {t : Traversal} (h : t.depth ≤ n)
    (p : Position) (i : Nat) :
    t.build config (p.child i) = Builder.ofDepth config n t (p.child i) := by
  rw [build_of_sequential (sequential_child config p i), buildInOrder]
  exact Builder.ofDepth_congr config (Nat.le_refl _) h _

/-- **The steps of a traversal lower their subqueries as those are lowered by themselves.** -/
theorem Traversal.buildInOrder_eq (config : Config) (t : Traversal) (scope : Position) :
    t.buildInOrder config scope = Builder.ofSteps (fun t scope => t.build config scope) config t
      scope := by
  rw [buildInOrder, Builder.ofDepth_eq_ofSteps]
  refine Builder.ofSteps_congr fun t' p i ht' => ?_
  obtain ⟨n, hn⟩ : ∃ n, t.depth = n + 1 := ⟨t.depth - 1, by omega⟩
  rw [hn]
  exact (build_child config (by omega) p i).symm

/-- **A step lowers its subqueries as they are lowered by themselves.** -/
theorem ModulatedStep.lower_eq (config : Config) (m : ModulatedStep) (position : Position) :
    m.lower config position =
      m.lowerIn ⟨fun t scope => t.build config scope, config, ⟨m.name, position⟩⟩ :=
  lowerIn_congr (c := ⟨_, config, ⟨m.name, position⟩⟩) fun _ i ht =>
    (Traversal.build_child config (Nat.le_of_lt ht) position i).symm

end TraversalPlan

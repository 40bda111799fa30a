import TraversalPlan.Proofs.Lowering.Interruption
import TraversalPlan.Proofs.Lowering.Policy
import TraversalPlan.Proofs.Lowering.Relocation

/-!
# Steps that are lowered at the same time

The steps of a whole query may be lowered at the same time. Then they end in some order. If all of them
succeed, the plan is the same as if they had been lowered one after the other. If some fail, the
failure that ends first is reported, where one after the other it would be that of the lowest index
(**`Traversal.build_of_ending`**).

* `firstFailing?`: the index of the first failure in an order.
* `gather_eq_error`, `Traced.result_traverse`: gathering outcomes reports the first failure in the
  order of ending, and going through a list is gathering in the order of the list.
* `Step.prefix_of_build`: a failure of a step names a place at or inside the step, so the failures of
  different steps are different.
* `Step.lower_of_flag`: a step does not ask whether it is lowered together with others.
* `Traversal.results`: what becomes of the steps, each by itself.
-/

namespace TraversalPlan

/-! ## The first failure -/

section Gather

variable {ε α : Type} {order : List Nat} {outcomes : List (Except ε α)} {i : Nat}

/-- There is a failure at an index. -/
def failsAt (outcomes : List (Except ε α)) (i : Nat) : Bool :=
  match outcomes[i]? with
  | some (.error _) => true
  | _ => false

/-- The index of the failure that comes first in an order of indexes. -/
def firstFailing? (order : List Nat) (outcomes : List (Except ε α)) : Option Nat :=
  order.find? (failsAt outcomes)

theorem failsAt_eq_true : failsAt outcomes i = true ↔ ∃ e, outcomes[i]? = some (.error e) := by
  unfold failsAt
  split
  · rename_i e he
    exact ⟨fun _ => ⟨e, he⟩, fun _ => rfl⟩
  · rename_i hne
    exact ⟨nofun, fun ⟨e, he⟩ => absurd he (hne e)⟩

theorem gather_cons_of_error {e : ε} (he : outcomes[i]? = some (.error e)) :
    gather (i :: order) outcomes = .error e := by
  unfold gather
  rw [List.findSome?_cons, he]

theorem gather_cons_of_not (h : ¬ failsAt outcomes i = true) :
    gather (i :: order) outcomes = gather order outcomes := by
  unfold gather
  rw [List.findSome?_cons]
  split
  · rename_i e he
    split at he
    · rename_i e' he'
      exact absurd (failsAt_eq_true.2 ⟨e', he'⟩) h
    · cases he
  · rfl

/-- **The first failure in the order is the one that is reported.** -/
theorem gather_eq_error {e : ε} (hfirst : firstFailing? order outcomes = some i)
    (he : outcomes[i]? = some (.error e)) : gather order outcomes = .error e := by
  unfold firstFailing? at hfirst
  induction order with
  | nil => cases hfirst
  | cons j order ih =>
    by_cases hj : failsAt outcomes j = true
    · rw [List.find?_cons_of_pos hj] at hfirst
      obtain rfl := Option.some.inj hfirst
      exact gather_cons_of_error he
    · rw [List.find?_cons_of_neg hj] at hfirst
      rw [gather_cons_of_not hj, ih hfirst]

theorem exists_eq_map_ok (h : ∀ e, .error e ∉ outcomes) : ∃ as : List α, outcomes = as.map .ok := by
  induction outcomes with
  | nil => exact ⟨[], rfl⟩
  | cons r outcomes ih =>
    obtain ⟨as, rfl⟩ := ih fun e he => h e (List.mem_cons_of_mem _ he)
    cases r with
    | ok a => exact ⟨a :: as, rfl⟩
    | error e => exact absurd List.mem_cons_self (h e)

theorem firstFailing?_cases (horder : order.Perm (List.range outcomes.length)) :
    (firstFailing? order outcomes = none ∧ ∃ as : List α, outcomes = as.map .ok) ∨
      ∃ i e, firstFailing? order outcomes = some i ∧ outcomes[i]? = some (.error e) := by
  cases hfirst : firstFailing? order outcomes with
  | some i =>
    obtain ⟨e, he⟩ := failsAt_eq_true.1 (List.find?_some hfirst)
    exact .inr ⟨i, e, rfl, he⟩
  | none =>
    refine .inl ⟨rfl, exists_eq_map_ok fun e he => ?_⟩
    obtain ⟨i, hi, hie⟩ := List.getElem_of_mem he
    have hmem : i ∈ order := horder.mem_iff.2 (List.mem_range.2 hi)
    have hfails : failsAt outcomes i = true :=
      failsAt_eq_true.2 ⟨e, List.getElem?_eq_some_iff.2 ⟨hi, hie⟩⟩
    exact List.find?_eq_none.1 hfirst i hmem hfails

theorem exists_lowest_of_error {e : ε} (he : outcomes[i]? = some (.error e)) :
    ∃ j e', firstFailing? (List.range outcomes.length) outcomes = some j ∧
      outcomes[j]? = some (.error e') := by
  rcases firstFailing?_cases (List.Perm.refl (List.range outcomes.length)) with
    ⟨-, as, has⟩ | hlowest
  · rw [has, List.getElem?_map] at he
    cases ha : as[i]? <;> simp [ha] at he
  · exact hlowest

theorem firstFailing?_append_cons (as : List α) (e : ε) (rest : List (Except ε α)) :
    let outcomes := as.map .ok ++ .error e :: rest
    firstFailing? (List.range outcomes.length) outcomes = some as.length := by
  intro outcomes
  have hfails : failsAt outcomes as.length = true := failsAt_eq_true.2 ⟨e, by simp [outcomes]⟩
  refine List.find?_range_eq_some.2 ⟨hfails, by simp [outcomes], fun i hi => ?_⟩
  rw [Bool.not_eq_true', ← Bool.not_eq_true, failsAt_eq_true]
  rintro ⟨e', he'⟩
  have hget : outcomes[i]? = some (.ok as[i]) := by
    simp [outcomes, List.getElem?_append_left, hi]
  cases hget.symm.trans he'

end Gather

/-- **Going through a list reports the failing item with the lowest index.** -/
theorem Traced.result_traverse {ε α β : Type} (f : α → Traced ε β) (as : List α) :
    (traverse f as).result = gather (List.range as.length) (as.map fun a => (f a).result) := by
  have hmap : ∀ {as : List α} {bs : List β},
      List.Forall₂ (fun a b => (f a).result = .ok b) as bs →
        (as.map fun a => (f a).result) = bs.map .ok := fun h => by
    rw [← forall₂_ok_iff.2 h, List.map_map]
    rfl
  cases h : (traverse f as).result with
  | ok bs => exact (gather_eq_ok.2 (hmap (traverse_eq_ok.1 h))).symm
  | error e =>
    obtain ⟨before, a, after, bs, rfl, hbefore, ha, -⟩ := exists_of_traverse_eq_error h
    let rest : List (Except ε β) := after.map fun a => (f a).result
    have houtcomes : ((before ++ a :: after).map fun a => (f a).result) =
        bs.map .ok ++ .error e :: rest := by
      rw [List.map_append, hmap hbefore, List.map_cons, ha]
    have hlength : (before ++ a :: after).length =
        (bs.map .ok ++ .error e :: rest : List (Except ε β)).length := by
      rw [← houtcomes, List.length_map]
    rw [houtcomes, hlength]
    exact (gather_eq_error (firstFailing?_append_cons bs e rest) (by simp)).symm

/-! ## Steps by themselves -/

namespace Step

variable {config : Config} {s : Step} {position : Position}

theorem build_eq {n : Nat} (h : s.depth ≤ n) :
    s.build config position = s.lower (Builder.ofDepth config n) config position :=
  lower_congr fun _ i ht =>
    Traversal.build_child config (Nat.le_of_lt (Nat.lt_of_lt_of_le ht h)) position i

/-- **A failure of a step names a place at or inside the step.** -/
theorem prefix_of_build {e : LoweringError} (h : (s.build config position).result = .error e) :
    position.path <+: e.step.position.path := by
  have huniform : Uniform LocalOperator.eachUnder fun scope =>
      s.lower (Builder.ofDepth config s.depth) config (scope.extend []) :=
    uniform_lower (Builder.uniform_ofDepth config s.depth) s
  simp only [Position.extend_nil, ← build_eq (Nat.le_refl s.depth)] at huniform
  rcases huniform with ⟨ops, hok⟩ | ⟨e', he'⟩
  · cases (hok position).symm.trans h
  · cases (he' position).symm.trans h
    exact List.prefix_append _ _

end Step

/-! ## The flag -/

section Flag

variable {policy : ModulatorPolicy} {seed : UInt64} {b b' : Bool} {build : Builder} {step : StepRef}

theorem ModulatedStep.lowerIn_of_flag (m : ModulatedStep) :
    m.lowerIn ⟨build, ⟨policy, seed, b⟩, step⟩ = m.lowerIn ⟨build, ⟨policy, seed, b'⟩, step⟩ := by
  rw [lowerIn_eq, lowerIn_eq]
  cases m <;> rfl

theorem Step.lower_of_flag (s : Step) (position : Position) :
    s.lower build ⟨policy, seed, b⟩ position = s.lower build ⟨policy, seed, b'⟩ position := by
  have hkind : s.kind.lowerIn ⟨build, ⟨policy, seed, b⟩, ⟨s.name, position⟩⟩ =
      s.kind.lowerIn ⟨build, ⟨policy, seed, b'⟩, ⟨s.name, position⟩⟩ := by
    cases s.kind with
    | elementary s => rfl
    | modulated m => exact m.lowerIn_of_flag
  unfold lower
  dsimp only
  rw [hkind]

theorem Builder.ofDepth_of_flag (b b' : Bool) (n : Nat) :
    ofDepth ⟨policy, seed, b⟩ n = ofDepth ⟨policy, seed, b'⟩ n := by
  have hsteps : ∀ build, ofSteps build ⟨policy, seed, b⟩ = ofSteps build ⟨policy, seed, b'⟩ := by
    intro build
    funext t scope
    unfold ofSteps
    rw [Traced.traverse_congr fun x _ => x.1.lower_of_flag _]
  induction n with
  | zero => exact hsteps _
  | succ n ih => rw [ofDepth, ofDepth, ih, hsteps]

end Flag

/-! ## Orders of ending -/

namespace Traversal

variable {t : Traversal} {policy : ModulatorPolicy} {seed : UInt64}

/-- What becomes of the steps of a traversal, each by itself. -/
def results (config : Config) (t : Traversal) (scope : Position) :
    List (Except LoweringError (List Operator)) :=
  t.steps.zipIdx.map fun x => (x.1.build config (scope.child x.2)).result

theorem length_results (config : Config) (scope : Position) :
    (t.results config scope).length = t.steps.length := by
  rw [results, List.length_map, List.length_zipIdx]

theorem results_of_outcomes (b : Bool) (scope : Position) :
    (t.outcomes ⟨policy, seed, b⟩ scope).map Traced.result =
      t.results ⟨policy, seed, false⟩ scope := by
  rw [outcomes, results, List.map_map]
  refine List.map_congr_left fun x hx => congrArg Traced.result ?_
  have hdepth : x.1.depth ≤ t.depth :=
    t.depth_eq ▸ depth_le_stepsDepth (List.fst_mem_of_mem_zipIdx hx)
  rw [Step.build_eq hdepth, Builder.ofDepth_of_flag b false, Step.lower_of_flag]

theorem result_buildEnding (order : List Nat) {scope : Position} (hroot : scope.isRoot = true) :
    (t.buildEnding order ⟨policy, seed, true⟩ scope).result =
      (gather order (t.results ⟨policy, seed, false⟩ scope)).map fun parts => ⟨parts.flatten⟩ := by
  rw [← results_of_outcomes true, ← result_buildFinishing, buildEnding, hroot]
  rfl

theorem result_build (scope : Position) :
    (t.build ⟨policy, seed, false⟩ scope).result =
      (gather (List.range t.steps.length) (t.results ⟨policy, seed, false⟩ scope)).map
        fun parts => ⟨parts.flatten⟩ := by
  rw [build_eq_ofSteps rfl, Traced.result_bind, Traced.result_traverse, List.length_zipIdx]
  rfl

theorem buildEnding_of_not_root (order : List Nat) {scope : Position}
    (hscope : scope.isRoot = false) (b : Bool) :
    t.buildEnding order ⟨policy, seed, b⟩ scope = t.build ⟨policy, seed, false⟩ scope := by
  have hsequential : (b && scope.isRoot) = false := by rw [hscope, Bool.and_false]
  rw [build_of_sequential rfl, buildInOrder, Builder.ofDepth_of_flag false b, buildEnding,
    hsequential, if_neg Bool.false_ne_true]
  rfl

/-- **A plan does not depend on whether steps were lowered at the same time**, or on how these
ended. -/
theorem build_eq_ok_of_ending {order : List Nat} {b : Bool} {scope : Position} {plan : Plan}
    (h : (t.buildEnding order ⟨policy, seed, b⟩ scope).result = .ok plan) :
    (t.build ⟨policy, seed, false⟩ scope).result = .ok plan := by
  cases b with
  | false => exact h
  | true =>
    cases hroot : scope.isRoot with
    | false => rwa [buildEnding_of_not_root order hroot] at h
    | true =>
      rw [result_buildEnding order hroot] at h
      rw [result_build]
      cases hparts : gather order (t.results ⟨policy, seed, false⟩ scope) with
      | error e =>
        rw [hparts] at h
        cases h
      | ok parts =>
        rw [hparts] at h
        rw [gather_eq_ok.2 (gather_eq_ok.1 hparts)]
        exact h

theorem index_of_results {config : Config} {scope : Position} {i j : Nat} {e : LoweringError}
    (hi : (t.results config scope)[i]? = some (.error e))
    (hj : (t.results config scope)[j]? = some (.error e))
    (hlength : t.steps.length ≤ UInt32.size) : i = j := by
  have hprefix : ∀ k, (t.results config scope)[k]? = some (.error e) →
      k < UInt32.size ∧ (scope.child k).path <+: e.step.position.path := by
    intro k hk
    obtain ⟨hlt, hk⟩ := List.getElem?_eq_some_iff.1 hk
    have hstep : (((t.steps.zipIdx.get ⟨k, by simpa [results] using hlt⟩).1).build config
        (scope.child k)).result = .error e := by
      simpa [results] using hk
    rw [length_results] at hlt
    exact ⟨Nat.lt_of_lt_of_le hlt hlength, Step.prefix_of_build hstep⟩
  obtain ⟨hi32, hi⟩ := hprefix i hi
  obtain ⟨hj32, hj⟩ := hprefix j hj
  exact Position.eq_of_prefix hi hj hi32 hj32

/-- **Which failure is reported depends on the order in which the steps end.** If all steps succeed,
the plan is that of the steps in order, whether or not they are lowered at the same time. Otherwise the
failing step that ends first is reported if they are, and the one with the lowest index if not. The two
answers agree just if these are the same step. Subqueries are lowered alike in any case. -/
theorem build_of_ending (t : Traversal) (policy : ModulatorPolicy) (seed : UInt64)
    {order : List Nat} (horder : order.Perm (List.range t.steps.length)) :
    let alone := t.results ⟨policy, seed, false⟩ .root
    let parallel := (t.buildEnding order ⟨policy, seed, true⟩ .root).result
    let sequential := (t.build ⟨policy, seed, false⟩ .root).result
    ((∃ parts : List (List Operator), alone = parts.map .ok ∧
        parallel = .ok ⟨parts.flatten⟩ ∧ sequential = .ok ⟨parts.flatten⟩) ∨
      ∃ first lowest e e',
        firstFailing? order alone = some first ∧
        firstFailing? (List.range t.steps.length) alone = some lowest ∧
        alone[first]? = some (.error e) ∧ parallel = .error e ∧
        alone[lowest]? = some (.error e') ∧ sequential = .error e' ∧
        (t.steps.length ≤ UInt32.size → (parallel = sequential ↔ first = lowest))) ∧
    ∀ scope, scope.isRoot = false →
      t.buildEnding order ⟨policy, seed, true⟩ scope = t.build ⟨policy, seed, false⟩ scope := by
  intro alone parallel sequential
  refine ⟨?_, fun scope hscope => buildEnding_of_not_root order hscope true⟩
  have hparallel : parallel = (gather order alone).map fun parts => ⟨parts.flatten⟩ :=
    result_buildEnding order rfl
  have hsequential : sequential =
      (gather (List.range t.steps.length) alone).map fun parts => ⟨parts.flatten⟩ :=
    result_build .root
  have hlength : alone.length = t.steps.length := length_results _ _
  rw [← hlength] at horder hsequential ⊢
  rcases firstFailing?_cases horder with ⟨-, parts, hparts⟩ | ⟨first, e, hfirst, he⟩
  · refine .inl ⟨parts, hparts, ?_, ?_⟩
    · rw [hparallel, gather_eq_ok.2 hparts]
      rfl
    · rw [hsequential, gather_eq_ok.2 hparts]
      rfl
  -- a step fails, so there is a lowest one that does
  obtain ⟨lowest, e', hlowest, he'⟩ := exists_lowest_of_error he
  have hparallel : parallel = .error e := by
    rw [hparallel, gather_eq_error hfirst he]
    rfl
  have hsequential : sequential = .error e' := by
    rw [hsequential, gather_eq_error hlowest he']
    rfl
  refine .inr ⟨first, lowest, e, e', hfirst, hlowest, he, hparallel, he', hsequential,
    fun hwidth => ?_⟩
  rw [hparallel, hsequential]
  constructor
  · intro h
    obtain rfl := Except.error.inj h
    exact index_of_results he he' (hlength ▸ hwidth)
  · rintro rfl
    obtain rfl := Except.error.inj (Option.some.inj (he.symm.trans he'))
    rfl

/-- A query with two ranges that end before they begin. -/
def emptyRanges : Traversal :=
  ((identity.vertices []).elementary (.range 4 2)).elementary (.range 9 3)

theorem build_of_ending_emptyRanges :
    [1, 2, 0].Perm (List.range emptyRanges.steps.length) ∧
      (emptyRanges.buildEnding [1, 2, 0] ⟨.broadcast, 0, true⟩ .root).result =
        .error ⟨⟨"range", ⟨[1]⟩⟩, .emptyRange 4 2⟩ := by
  have horder : [1, 2, 0].Perm (List.range emptyRanges.steps.length) := by decide
  have hfirst : firstFailing? [1, 2, 0] (emptyRanges.results .standard .root) = some 1 := by cbv
  have hlowest : firstFailing? (List.range emptyRanges.steps.length)
      (emptyRanges.results .standard .root) = some 1 := by cbv
  have hsequential : (emptyRanges.build .standard .root).result =
      .error ⟨⟨"range", ⟨[1]⟩⟩, .emptyRange 4 2⟩ := by cbv
  refine ⟨horder, ?_⟩
  obtain ⟨⟨parts, -, -, hok⟩ | ⟨first, lowest, e, e', hi, hj, -, -, -, -, hiff⟩, -⟩ :=
    build_of_ending emptyRanges .broadcast 0 horder
  · cases hok.symm.trans hsequential
  · obtain rfl := Option.some.inj (hi.symm.trans hfirst)
    obtain rfl := Option.some.inj (hj.symm.trans hlowest)
    exact ((hiff (by decide)).2 rfl).trans hsequential

/-- If the second of the ranges ends first, it is reported, and otherwise the first. -/
theorem later_failure_reported :
    ¬ ∀ (t : Traversal) (order : List Nat), order.Perm (List.range t.steps.length) →
      (t.buildEnding order ⟨.broadcast, 0, true⟩ .root).result =
        (t.build .standard .root).result := by
  intro h
  have hparallel : (emptyRanges.buildEnding [2, 1, 0] ⟨.broadcast, 0, true⟩ .root).result =
      .error ⟨⟨"range", ⟨[2]⟩⟩, .emptyRange 9 3⟩ := by cbv
  have hsequential : (emptyRanges.build .standard .root).result =
      .error ⟨⟨"range", ⟨[1]⟩⟩, .emptyRange 4 2⟩ := by cbv
  have heq := h emptyRanges [2, 1, 0] (by decide)
  rw [hparallel, hsequential] at heq
  cases heq

end Traversal
end TraversalPlan

import TraversalPlan.Proofs.Alias.Places
import TraversalPlan.Proofs.Lowering.Tally
import TraversalPlan.Proofs.Traversal.Width
import TraversalPlan.Traversal.Build

/-!
# Where lowering was interrupted

The log of a traversal tells how far lowering came. If it fails, there is no event for an operator of
the failing step, nor of a step around it: only steps before the failure and subqueries before it have
logged their operators, and they stand elsewhere (**`Traversal.log_of_build`**).

* `Numbered`: slots have different numbers. The subqueries of a step do
  (`ModulatedStep.numbered_subqueries`).
* `Traversal.prefix_of_mem_log`: what a traversal logs stands under its scope.
* `Interrupted`: the log of a traversal up to a failure, at all depths.
-/

namespace TraversalPlan

open Operator

/-! ## Numbers of subqueries -/

/-- The slots have numbers from `n` on and below `N`, in ascending order. -/
structure Numbered (slots : List Slot) (n N : Nat) : Prop where
  ascending : slots.Pairwise fun s s' => s.number < s'.number
  bounds : ∀ s ∈ slots, n ≤ s.number ∧ s.number < N

namespace Numbered

variable {slots : List Slot} {n k N K : Nat}

theorem nil : Numbered [] n N := ⟨.nil, by simp⟩

theorem cons {s : Slot} (hs : s.number = n) (hN : n < N) (h : Numbered slots (n + 1) N) :
    Numbered (s :: slots) n N := by
  constructor
  · rw [List.pairwise_cons]
    refine ⟨fun s' hs' => ?_, h.ascending⟩
    have hle := (h.bounds s' hs').1
    omega
  · rw [List.forall_mem_cons]
    refine ⟨by omega, fun s' hs' => ?_⟩
    have hbounds := h.bounds s' hs'
    omega

theorem mono (h : Numbered slots n N) (hN : N ≤ K) : Numbered slots n K := by
  refine ⟨h.ascending, fun s hs => ?_⟩
  have hbounds := h.bounds s hs
  omega

theorem filter (h : Numbered slots n N) (p : Slot → Bool) : Numbered (slots.filter p) n N :=
  ⟨h.ascending.filter p, fun s hs => h.bounds s (List.mem_of_mem_filter hs)⟩

theorem zipIdx {α : Type} {xs : List α} {f : α × Nat → Slot} (hf : ∀ x, (f x).number = x.2) :
    Numbered (xs.zipIdx.map f) 0 xs.length := by
  constructor
  · rw [List.pairwise_map]
    simp only [hf]
    rw [← List.pairwise_map, List.zipIdx_map_snd]
    exact List.pairwise_lt_range'
  · intro s hs
    obtain ⟨x, hx, rfl⟩ := List.mem_map.1 hs
    rw [hf]
    exact ⟨Nat.zero_le _, by simpa using List.snd_lt_of_mem_zipIdx hx⟩

theorem slotsOf (ts : List Traversal) : Numbered (slotsOf ts) 0 ts.length := zipIdx fun _ => rfl

theorem slotsFrom (bys : List Traversal) (policy : ModulatorPolicy) (i number : Nat)
    (tags : List String) :
    Numbered ((WherePredicateStep.slotsFrom bys policy i number tags).filter fun s =>
      s.expr?.isNone) number (number + tags.length) := by
  induction tags generalizing i number with
  | nil => exact nil
  | cons tag tags ih =>
    rw [WherePredicateStep.slotsFrom]
    cases Modulators.at? bys policy i with
    | none => exact nil
    | some t =>
      let slot : Slot := ⟨tag, t, true, .subquery, number⟩
      show Numbered (List.filter (fun s => s.expr?.isNone) (slot :: WherePredicateStep.slotsFrom bys
        policy (i + 1) (if slot.expr?.isSome then number else number + 1) tags)) _ _
      cases he : slot.expr? with
      | some e =>
        rw [List.filter_cons_of_neg (by simp [he])]
        exact (ih (i + 1) number).mono (by simp)
      | none =>
        rw [List.filter_cons_of_pos (by simp [he]), List.length_cons]
        have hrest := ih (i + 1) (number + 1)
        rw [Nat.add_right_comm] at hrest
        exact hrest.cons rfl (by omega)

end Numbered

namespace ModulatedStep

variable {m : ModulatedStep} {policy : ModulatorPolicy}

theorem width_of_mem_modulators {t : Traversal} (h : t ∈ m.modulators) : t.width ≤ m.width := by
  cases m with
  | select s =>
    obtain ⟨keys, bys⟩ := s
    exact Nat.le_trans (width_le_traversalsWidth h) (Nat.le_max_right _ _)
  | dedup s =>
    obtain ⟨keys, _ | t'⟩ := s
    · cases h
    · obtain rfl := List.mem_singleton.1 h
      exact Nat.le_max_right _ _
  | sample s =>
    obtain ⟨amount, seed, _ | t'⟩ := s
    · cases h
    · obtain rfl := List.mem_singleton.1 h
      exact Nat.le_refl _
  | order s =>
    obtain ⟨comparators⟩ := s
    obtain ⟨k, hk, rfl⟩ := List.mem_map.1 h
    exact width_le_comparatorsWidth hk
  | group s =>
    obtain ⟨keys, values, count⟩ := s
    exact Nat.le_trans (width_le_traversalsWidth h) (Nat.le_max_left _ _)
  | wherePredicate s =>
    obtain ⟨startKey, p, selectKeys, bys⟩ := s
    exact Nat.le_trans (width_le_traversalsWidth h) (Nat.le_max_right _ _)
  | whereTraversal t' =>
    obtain rfl := List.mem_singleton.1 h
    exact Nat.le_refl _
  | not t' =>
    obtain rfl := List.mem_singleton.1 h
    exact Nat.le_refl _

/-- **The subqueries of a step are told apart by their numbers.** -/
theorem numbered_subqueries (hwidth : m.width < UInt32.size) :
    Numbered (m.subqueries policy) 0 UInt32.size := by
  have hslots : ∀ {slots : List Slot} {n : Nat}, Numbered slots 0 n → n ≤ UInt32.size →
      Numbered ((slots ++ []).filter fun s => s.expr?.isNone) 0 UInt32.size := by
    intro slots n h hn
    rw [List.append_nil]
    exact (h.filter _).mono hn
  have hone : 1 ≤ UInt32.size := by decide
  -- some lists have a single item in place of none
  have hdefault : ∀ {α : Type} {xs : List α} (x : α), xs.length < UInt32.size →
      (if xs.isEmpty then [x] else xs).length ≤ UInt32.size := by
    intro α xs x h
    split
    · exact hone
    · exact Nat.le_of_lt h
  unfold subqueries
  cases m with
  | select s =>
    obtain ⟨keys, bys⟩ := s
    rw [width] at hwidth
    exact hslots (Numbered.zipIdx fun _ => rfl) (by dsimp only; omega)
  | dedup s =>
    have hkeys : s.keys.length < UInt32.size := by
      obtain ⟨keys, _ | t⟩ := s <;> rw [width] at hwidth <;> dsimp only <;> omega
    exact hslots (Numbered.zipIdx fun _ => rfl) (hdefault "" hkeys)
  | sample s => exact hslots (.slotsOf _) hone
  | order s =>
    obtain ⟨comparators⟩ := s
    rw [width] at hwidth
    have hlength : comparators.length < UInt32.size :=
      Nat.lt_of_le_of_lt (length_le_comparatorsWidth comparators) hwidth
    refine hslots (.slotsOf _) ?_
    rw [List.length_map]
    exact hdefault _ hlength
  | group s =>
    obtain ⟨keys, values, count⟩ := s
    rw [width] at hwidth
    have hkeys := length_le_traversalsWidth keys
    have hlength : keys.length < UInt32.size := by omega
    exact hslots (.slotsOf _) (hdefault _ hlength)
  | wherePredicate s =>
    obtain ⟨startKey, p, selectKeys, bys⟩ := s
    rw [width] at hwidth
    have hlength : 0 + (WherePredicateStep.startTag ⟨startKey, p, selectKeys, bys⟩ ::
        selectKeys).length ≤ UInt32.size := by
      rw [List.length_cons]
      omega
    have hnumbered := (Numbered.slotsFrom bys policy 0 0 _).mono hlength
    rwa [← List.append_nil (WherePredicateStep.slotsFrom _ _ _ _ _)] at hnumbered
  | whereTraversal t =>
    exact (Numbered.nil.cons rfl hone).filter _
  | not t => exact (Numbered.nil.cons rfl hone).filter _

end ModulatedStep

theorem Step.numbered_subqueries {s : Step} {policy : ModulatorPolicy}
    (hwidth : s.width < UInt32.size) : Numbered (s.subqueries policy) 0 UInt32.size := by
  obtain ⟨_ | m, labels⟩ := s
  · exact .nil
  · exact m.numbered_subqueries hwidth

theorem Step.fits_of_mem_subqueries {s : Step} {policy : ModulatorPolicy} {slot : Slot}
    (hwidth : s.width < UInt32.size) (h : slot ∈ s.subqueries policy) : slot.traversal.Fits := by
  obtain ⟨_ | m, labels⟩ := s
  · cases h
  · have hmodulator := ModulatedStep.width_of_mem_modulators
      (ModulatedStep.modulator_of_mem_subqueries h)
    exact Traversal.fits_rootedAt _ (Nat.lt_of_le_of_lt hmodulator hwidth)

/-! ## Positions of events -/

section Positions

variable {config : Config} {step : StepRef} {scope : Position} {e : LoweringError}

/-- Two positions under a third that lead on to the same place have the same number. -/
theorem Position.eq_of_prefix {p : Position} {i j : Nat} {path : List UInt32}
    (hi : (p.child i).path <+: path) (hj : (p.child j).path <+: path) (hi32 : i < UInt32.size)
    (hj32 : j < UInt32.size) : i = j := by
  have hprefix : (p.child i).path <+: (p.child j).path :=
    List.prefix_of_prefix_length_le hi hj (by simp)
  have heq : (p.child i).path = (p.child j).path := hprefix.eq_of_length (by simp)
  by_contra hne
  rcases Nat.lt_or_gt_of_ne hne with hlt | hgt
  · exact Alias.nested_ne hlt hj32 heq
  · exact Alias.nested_ne hgt hi32 heq.symm

theorem Mirrors.exists_of_mem {slots : List Slot} {ops : List Operator} {log : List Event}
    (h : Mirrors config step slots ops log) {emitter : StepRef} {o : String}
    (ho : .emitted emitter o ∈ log) : ∃ s ∈ slots, ∃ plan,
      (s.lower config step).result = .ok plan ∧ .emitted emitter o ∈ (s.lower config step).log := by
  induction h with
  | nil => cases ho
  | other _ _ ih => exact ih ho
  | @apply s slots plan join column ops event log announced lowered _ ih =>
    rcases List.mem_cons.1 ho with rfl | ho
    · cases announced
    rcases List.mem_append.1 ho with ho | ho
    · exact ⟨s, List.mem_cons_self, plan, lowered, ho⟩
    · obtain ⟨s', hs', hlowered⟩ := ih ho
      exact ⟨s', List.mem_cons_of_mem _ hs', hlowered⟩

theorem StepsLog.exists_of_mem {steps : List (Step × Nat)}
    {parts : List (List Operator × List Event)} (h : StepsLog config scope steps parts)
    {event : Event} (hevent : event ∈ parts.flatMap Prod.snd) :
    ∃ x ∈ steps, ∃ ops log, x.1.Logs config (scope.child x.2) ops log ∧ event ∈ log := by
  induction h with
  | nil => cases hevent
  | @cons x part steps parts hx _ ih =>
    rw [List.flatMap_cons] at hevent
    rcases List.mem_append.1 hevent with hevent | hevent
    · exact ⟨x, List.mem_cons_self, part.1, part.2, hx, hevent⟩
    · obtain ⟨x', hx', hlogs⟩ := ih hevent
      exact ⟨x', List.mem_cons_of_mem _ hx', hlogs⟩

theorem Step.Logs.prefix_of_mem {s : Step} {position : Position} {ops : List Operator}
    {log : List Event} (h : s.Logs config position ops log)
    (hinner : ∀ slot ∈ s.subqueries config.policy, ∀ plan,
      (slot.lower config ⟨s.name, position⟩).result = .ok plan → ∀ emitter o,
        .emitted emitter o ∈ (slot.lower config ⟨s.name, position⟩).log →
          (position.child slot.number).path <+: emitter.position.path)
    {emitter : StepRef} {o : String} (ho : .emitted emitter o ∈ log) :
    position.path <+: emitter.position.path := by
  obtain ⟨subqueries, hmirrors, rfl⟩ := h.mirrors
  rcases List.mem_append.1 ho with ho | ho
  · obtain ⟨slot, hslot, plan, hplan, ho⟩ := hmirrors.exists_of_mem ho
    have hslot := hinner slot hslot plan hplan emitter o ho
    exact (List.prefix_append _ _).trans hslot
  · obtain ⟨operator, -, heq⟩ := List.mem_map.1 ho
    obtain ⟨rfl, -⟩ := Event.emitted.inj heq
    exact List.prefix_rfl

/-- **A traversal logs operators under its scope.** -/
theorem Traversal.prefix_of_mem_log (t : Traversal) (scope : Position) :
    (config.parallel && scope.isRoot) = false → ∀ plan, (t.build config scope).result = .ok plan →
      ∀ emitter o, .emitted emitter o ∈ (t.build config scope).log →
        scope.path <+: emitter.position.path := by
  apply @induction_on_subqueries config.policy _ _ t scope
  intro t scope ih sequential plan hplan emitter o ho
  obtain ⟨parts, hparts, -, hlog⟩ := logs_of_build sequential hplan
  rw [hlog] at ho
  obtain ⟨x, hx, ops, log, hlogs, ho⟩ := hparts.exists_of_mem ho
  have hstep : (scope.child x.2).path <+: emitter.position.path :=
    hlogs.prefix_of_mem (fun s hs => ih x hx s hs (sequential_child _ _ _)) ho
  exact (List.prefix_append _ _).trans hstep

end Positions

/-! ## Failures -/

/-- The log of a traversal that fails: the logs of the steps before, the finished subqueries of the
failing step, and if the failure is inside a further subquery, its announcement and its log up to the
failure. -/
inductive Interrupted (config : Config) :
    Traversal → Position → LoweringError → List Event → Prop
  | own {t : Traversal} {scope : Position} {e : LoweringError} {before after : List (Step × Nat)}
    {s : Step} {i : Nat} {parts : List (List Operator × List Event)} {slots rest : List Slot}
    {ops : List Operator} {log : List Event}
    (steps : t.steps.zipIdx = before ++ (s, i) :: after)
    (earlier : StepsLog config scope before parts)
    (subqueries : s.subqueries config.policy = slots ++ rest)
    (finished : Mirrors config ⟨s.name, scope.child i⟩ slots ops log)
    (here : e.step = ⟨s.name, scope.child i⟩) :
    Interrupted config t scope e (parts.flatMap Prod.snd ++ log)
  | within {t : Traversal} {scope : Position} {e : LoweringError}
    {before after : List (Step × Nat)} {s : Step} {i : Nat}
    {parts : List (List Operator × List Event)} {slot : Slot} {slots rest : List Slot}
    {ops : List Operator} {join : JoinKind} {column : Option Alias} {event : Event}
    {log inner : List Event} (steps : t.steps.zipIdx = before ++ (s, i) :: after)
    (earlier : StepsLog config scope before parts)
    (subqueries : s.subqueries config.policy = slots ++ slot :: rest)
    (finished : Mirrors config ⟨s.name, scope.child i⟩ slots ops log)
    (announced : Announces ⟨s.name, scope.child i⟩ join column event)
    (failed : Interrupted config slot.traversal ((scope.child i).child slot.number) e inner) :
    Interrupted config t scope e (parts.flatMap Prod.snd ++ (log ++ event :: inner))

namespace Interrupted

variable {config : Config} {t : Traversal} {scope : Position} {e : LoweringError} {log : List Event}

/-- **A traversal that fails has the log of a failure**, at all depths. -/
theorem of_build (t : Traversal) (scope : Position) :
    (config.parallel && scope.isRoot) = false → ∀ e, (t.build config scope).result = .error e →
      Interrupted config t scope e (t.build config scope).log := by
  apply @Traversal.induction_on_subqueries config.policy _ _ t scope
  intro t scope ih sequential e he
  obtain ⟨before, s, i, after, parts, log, hsteps, hearlier, hstopped, hlog⟩ :=
    Traversal.stopped_of_build sequential he
  have hmem : (s, i) ∈ t.steps.zipIdx := by simp [hsteps]
  rw [hlog]
  generalize hsubqueries : s.subqueries config.policy = subqueries at hstopped
  cases hstopped with
  | own finished here => exact .own hsteps hearlier hsubqueries finished here
  | @within slot slots rest ops join column event log finished announced failed =>
    have hslot : slot ∈ s.subqueries config.policy := by simp [hsubqueries]
    have hinner := ih (s, i) hmem slot hslot (Traversal.sequential_child _ _ _) e failed
    exact .within hsteps hearlier hsubqueries finished announced hinner

theorem prefix_path (h : Interrupted config t scope e log) : scope.path <+: e.step.position.path := by
  induction h with
  | own _ _ _ _ here =>
    rw [here]
    exact List.prefix_append _ _
  | within _ _ _ _ _ _ ih =>
    have hstep := (List.prefix_append _ _).trans ih
    exact (List.prefix_append _ _).trans hstep

theorem ne_of_mem_before {steps : List Step} {before after : List (Step × Nat)} {x y : Step × Nat}
    (h : steps.zipIdx = before ++ y :: after) (hx : x ∈ before) : x.2 ≠ y.2 := by
  have hnodup : (steps.zipIdx.map Prod.snd).Nodup := by
    rw [List.zipIdx_map_snd]
    exact List.nodup_range'
  rw [h, List.map_append, List.nodup_append] at hnodup
  exact hnodup.2.2 _ (List.mem_map_of_mem hx) _ (by simp)

/-- An operator that is logged by a step before stands nowhere around the failure. -/
theorem not_prefix_of_earlier (ht : t.Fits) {before after : List (Step × Nat)} {s : Step} {i : Nat}
    {parts : List (List Operator × List Event)} (hsteps : t.steps.zipIdx = before ++ (s, i) :: after)
    (hearlier : StepsLog config scope before parts)
    (hfailure : (scope.child i).path <+: e.step.position.path) {emitter : StepRef} {o : String}
    (ho : .emitted emitter o ∈ parts.flatMap Prod.snd) :
    ¬ emitter.position.path <+: e.step.position.path := by
  intro hprefix
  obtain ⟨x, hx, ops, log, hlogs, ho⟩ := hearlier.exists_of_mem ho
  have hstep : (scope.child x.2).path <+: emitter.position.path :=
    hlogs.prefix_of_mem (fun slot _ => slot.traversal.prefix_of_mem_log _
      (Traversal.sequential_child _ _ _)) ho
  have hindex : ∀ y ∈ t.steps.zipIdx, y.2 < UInt32.size := by
    intro y hy
    have hlt := List.snd_lt_of_mem_zipIdx hy
    have hsize := ht.1
    omega
  rw [hsteps] at hindex
  have hx32 : x.2 < UInt32.size := hindex x (List.mem_append_left _ hx)
  have hi32 : i < UInt32.size := hindex (s, i) (List.mem_append_right _ List.mem_cons_self)
  have heq : x.2 = i := Position.eq_of_prefix (hstep.trans hprefix) hfailure hx32 hi32
  exact ne_of_mem_before hsteps hx heq

/-- **No operator is logged of the failing step, nor of a step around it.** -/
theorem not_prefix (h : Interrupted config t scope e log) (ht : t.Fits) :
    ∀ emitter o, .emitted emitter o ∈ log →
      ¬ emitter.position.path <+: e.step.position.path := by
  induction h with
  | @own t scope e before after s i parts slots rest ops log steps earlier subqueries finished here =>
    intro emitter o ho
    rcases List.mem_append.1 ho with ho | ho
    · have hfailure : (scope.child i).path <+: e.step.position.path :=
        ⟨[], by rw [List.append_nil, here]⟩
      exact not_prefix_of_earlier ht steps earlier hfailure ho
    · intro hprefix
      obtain ⟨slot, -, plan, hplan, ho⟩ := finished.exists_of_mem ho
      have hslot := slot.traversal.prefix_of_mem_log _ (Traversal.sequential_child _ _ _) plan hplan
        emitter o ho
      have hle := (hslot.trans hprefix).length_le
      rw [here] at hle
      simp at hle
  | @within t scope e before after s i parts slot slots rest ops join column event log inner steps
      earlier subqueries finished announced failed ih =>
    have hwidth : s.width < UInt32.size := by
      have hmem : s ∈ t.steps := by
        have hzip : (s, i) ∈ t.steps.zipIdx := by simp [steps]
        exact List.fst_mem_of_mem_zipIdx hzip
      exact Nat.lt_of_le_of_lt (width_le_stepsWidth hmem) ht.2
    have hfailure : ((scope.child i).child slot.number).path <+: e.step.position.path :=
      failed.prefix_path
    intro emitter o ho
    rcases List.mem_append.1 ho with ho | ho
    · exact not_prefix_of_earlier ht steps earlier ((List.prefix_append _ _).trans hfailure) ho
    rcases List.mem_append.1 ho with ho | ho
    · intro hprefix
      obtain ⟨slot', hslot', plan, hplan, ho⟩ := finished.exists_of_mem ho
      have hemitter := slot'.traversal.prefix_of_mem_log _ (Traversal.sequential_child _ _ _) plan
        hplan emitter o ho
      have hnumbered : Numbered (s.subqueries config.policy) 0 UInt32.size :=
        Step.numbered_subqueries hwidth
      rw [subqueries] at hnumbered
      have hlt : slot'.number < slot.number :=
        (List.pairwise_append.1 hnumbered.ascending).2.2 slot' hslot' slot List.mem_cons_self
      have heq : slot'.number = slot.number := Position.eq_of_prefix (hemitter.trans hprefix)
        hfailure (hnumbered.bounds slot' (List.mem_append_left _ hslot')).2
        (hnumbered.bounds slot (List.mem_append_right _ List.mem_cons_self)).2
      omega
    · rcases List.mem_cons.1 ho with rfl | ho
      · cases announced
      · have hslot : slot ∈ s.subqueries config.policy := by simp [subqueries]
        exact ih (Step.fits_of_mem_subqueries hwidth hslot) emitter o ho

end Interrupted

namespace Traversal

/-- **The log mirrors the plan.** Steps that are lowered one after the other log their subqueries and
their operators in order, so that the log tallies with the plan at all depths. If lowering fails, no
operator has been logged of the failing step or of a step around it. -/
theorem log_of_build {config : Config} {t : Traversal} {scope : Position}
    (sequential : (config.parallel && scope.isRoot) = false) :
    (∀ plan, (t.build config scope).result = .ok plan →
      (∃ parts, StepsLog config scope t.steps.zipIdx parts ∧
        plan.operators = parts.flatMap Prod.fst ∧
        (t.build config scope).log = parts.flatMap Prod.snd) ∧
      Tallies plan.operators (t.build config scope).log) ∧
    ∀ e, (t.build config scope).result = .error e →
      Interrupted config t scope e (t.build config scope).log ∧
      (t.width < UInt32.size → ∀ emitter o, .emitted emitter o ∈ (t.build config scope).log →
        ¬ emitter.position.path <+: e.step.position.path) := by
  constructor
  · intro plan hplan
    exact ⟨logs_of_build sequential hplan, tallies_of_build t scope sequential plan hplan⟩
  · intro e he
    have hinterrupted := Interrupted.of_build t scope sequential e he
    exact ⟨hinterrupted, fun hwidth => hinterrupted.not_prefix (fits_of_width hwidth)⟩

/-- Sorts by the number of the neighbours that have neighbours in turn. -/
def orderByPaths : Traversal :=
  let neighbours := identity.outgoing []
  let key := (neighbours.modulated (.whereTraversal neighbours)).count
  identity.modulated (.order ⟨[⟨key, .ascending⟩]⟩)

/-- Sorts by a `select` that has no keys. -/
def orderByNothing : Traversal :=
  let key := (identity.outgoing []).modulated (.select ⟨[], []⟩)
  identity.modulated (.order ⟨[⟨key, .ascending⟩]⟩)

theorem log_of_build_orderByPaths :
    (∃ plan, (orderByPaths.build .standard .root).result = .ok plan ∧
      (appliesOf plan.operators).map Prod.fst = [.inner, .semi] ∧
      Tallies plan.operators (orderByPaths.build .standard .root).log) ∧
    ∃ e, (orderByNothing.build .standard .root).result = .error e ∧
      e.step = ⟨"select", ⟨[0, 0, 1]⟩⟩ ∧
      (orderByNothing.build .standard .root).log =
        [.subquery ⟨"order", ⟨[0]⟩⟩ ⟨"~expr_0_0", false⟩,
          .emitted ⟨"out", ⟨[0, 0, 0]⟩⟩ "Expand"] ∧
      ∀ emitter o, .emitted emitter o ∈ (orderByNothing.build .standard .root).log →
        ¬ emitter.position.path <+: e.step.position.path := by
  have happlies : (orderByPaths.build .standard .root).result.map
      (fun p => (appliesOf p.operators).map Prod.fst) = .ok [.inner, .semi] := by cbv
  have hfails : (orderByNothing.build .standard .root).result =
      .error ⟨⟨"select", ⟨[0, 0, 1]⟩⟩, .selectWithoutKeys⟩ := by cbv
  have hlog : (orderByNothing.build .standard .root).log =
      [.subquery ⟨"order", ⟨[0]⟩⟩ ⟨"~expr_0_0", false⟩,
        .emitted ⟨"out", ⟨[0, 0, 0]⟩⟩ "Expand"] := by cbv
  have hwidth : orderByNothing.width < UInt32.size := by decide
  obtain ⟨hok, -⟩ := @log_of_build .standard orderByPaths .root rfl
  obtain ⟨-, herror⟩ := @log_of_build .standard orderByNothing .root rfl
  obtain ⟨-, hprefix⟩ := herror _ hfails
  refine ⟨?_, _, hfails, rfl, hlog, hprefix hwidth⟩
  cases h : (orderByPaths.build .standard .root).result with
  | error e =>
    rw [h] at happlies
    cases happlies
  | ok plan =>
    rw [h] at happlies
    exact ⟨plan, rfl, Except.ok.inj happlies, (hok plan h).2⟩

end Traversal
end TraversalPlan

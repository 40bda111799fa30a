import Mathlib.Data.List.ReduceOption
import TraversalPlan.Proofs.Lowering.Faults
import TraversalPlan.Proofs.Lowering.Occurrences

/-!
# How many modulators are handed out

A `where` asks for a modulator for each of its operands, and counts how often it has asked. As long as
it is given one, this is the number of modulators handed out. When the supply has come to its end, a
call is refused, and so is every later one; refused calls are counted as well. So a `where` that runs
out names one modulator more than it has used (**`Modulators.consumed_of_run`**).

* `Modulators.run`: a number of calls, with the answers in order and what is left.
* `Modulators.refused_next`, `Modulators.answers_of_run`: the answers are modulators first and
  refusals from some call on.
* `Modulators.length_handed`: the modulators handed out are as many as the calls, up to the supply.
* `WherePredicateStep.RunsOutAfter`: some operands have used modulators, and the next is refused.
* `WherePredicateStep.operands_eq_exhausted`: where operands run out, and what is then reported.
-/

namespace TraversalPlan

/-! ## Calls -/

namespace Modulators

/-- A number of calls for the next modulator: the answers in order, and what is left after them. -/
def run : Nat → Modulators → List (Option Traversal) × Modulators
  | 0, m => ([], m)
  | n + 1, m =>
    let (answers, left) := run n m.next.2
    (m.next.1 :: answers, left)

variable {m : Modulators}

@[simp]
theorem run_zero (m : Modulators) : run 0 m = ([], m) := rfl

theorem run_succ (n : Nat) (m : Modulators) :
    run (n + 1) m = (m.next.1 :: (run n m.next.2).1, (run n m.next.2).2) := rfl

theorem run_eq (n : Nat) (m : Modulators) :
    run n m = ((List.range' m.consumed n).map (at? m.bys m.policy),
      { m with consumed := m.consumed + n }) := by
  induction n generalizing m with
  | zero => rfl
  | succ n ih =>
    rw [run_succ, ih, List.range'_succ, List.map_cons]
    simp only [next, Nat.add_assoc, Nat.add_comm 1 n]

theorem run_concat (n : Nat) (m : Modulators) :
    (run (n + 1) m).1 = (run n m).1 ++ [at? m.bys m.policy (m.consumed + n)] := by
  rw [run_eq, run_eq, List.range'_concat, List.map_append, Nat.one_mul]
  rfl

theorem length_run (n : Nat) (m : Modulators) : (run n m).1.length = n := by
  rw [run_eq, List.length_map, List.length_range']

/-- **After a refusal the next call is refused too.** -/
theorem refused_next (h : m.next.1 = none) : m.next.2.next.1 = none := by
  obtain ⟨supply, hsupply, hle⟩ := at?_eq_none.1 h
  exact at?_eq_none.2 ⟨supply, hsupply, Nat.le_succ_of_le hle⟩

theorem run_of_refused (n : Nat) (h : m.next.1 = none) : (run n m).1 = List.replicate n none := by
  induction n generalizing m with
  | zero => rfl
  | succ n ih =>
    have hrest : (run n m.next.2).1 = List.replicate n none := ih (refused_next h)
    rw [run_succ, h, hrest, List.replicate_succ]

/-- **Modulators are handed out first, and from the first refusal on every call is refused.** -/
theorem answers_of_run (n : Nat) (m : Modulators) :
    (run n m).1 = (run n m).1.reduceOption.map some ++
      List.replicate ((run n m).1.countP Option.isNone) none := by
  induction n generalizing m with
  | zero => rfl
  | succ n ih =>
    cases h : m.next.1 with
    | none =>
      rw [run_of_refused _ h, List.reduceOption_replicate_none, List.countP_replicate]
      rfl
    | some t =>
      rw [run_succ, h, List.reduceOption_cons_of_some, List.countP_cons_of_neg (by simp),
        List.map_cons, List.cons_append, ← ih]

theorem consumed_eq (n : Nat) (m : Modulators) :
    (run n m).2.consumed = m.consumed +
      ((run n m).1.reduceOption.length + (run n m).1.countP Option.isNone) := by
  have hlength : (run n m).1.length =
      (run n m).1.reduceOption.length + (run n m).1.countP Option.isNone := by
    rw [List.countP_eq_length_filter]
    exact List.length_eq_reduceOption_length_add_filter_none
  rw [← hlength, length_run, run_eq]

/-- **The modulators handed out are as many as the calls, up to the supply.** -/
theorem length_handed (bys : List Traversal) (policy : ModulatorPolicy) (n : Nat) :
    (run n (start bys policy)).1.reduceOption.length = (supply? bys policy).elim n (min n) := by
  induction n with
  | zero => cases supply? bys policy <;> simp
  | succ n ih =>
    have hconcat : (run (n + 1) (start bys policy)).1 =
        (run n (start bys policy)).1 ++ [at? bys policy n] := by
      rw [run_concat, start, Nat.zero_add]
    rw [hconcat, List.reduceOption_append, List.length_append, ih]
    cases hnext : at? bys policy n with
    | none =>
      obtain ⟨supply, hsupply, hle⟩ := at?_eq_none.1 hnext
      simp only [hsupply, Option.elim_some, List.reduceOption_singleton, Option.toList_none,
        List.length_nil]
      omega
    | some t =>
      cases hsupply : supply? bys policy with
      | none => rfl
      | some supply =>
        have hlt : n < supply := lt_of_at?_eq_some hnext hsupply
        simp only [Option.elim_some, List.reduceOption_singleton, Option.toList_some,
          List.length_singleton]
        omega

end Modulators

/-! ## Operands that run out -/

theorem Traversal.inside_of_build {config : Config} {t : Traversal} {position : Position} {i : Nat}
    {e : LoweringError} (h : (t.build config (position.child i)).result = .error e) :
    position.Inside e.step.position := by
  have hinterrupted := Interrupted.of_build t _ (sequential_child config position i) e h
  exact ⟨i, hinterrupted.prefix_path⟩

namespace Context

variable {c : Context}

/-- Subqueries of the step at work do not fail at the step itself. -/
def FailsInside (c : Context) : Prop :=
  ∀ t i, (c.build t (c.step.position.child i)).FailsWithin fun e => e.step ≠ c.step

theorem failsWithin_orSubquery (hbuild : c.FailsInside) (fault : Fault) (e : Option String)
    (t : Traversal) (a : Alias) (sub : Nat) :
    (c.orSubquery e t a sub).FailsWithin (· ≠ ⟨c.step, fault⟩) := by
  cases e with
  | some e => exact .pure _
  | none =>
    have hplan : (c.build t (c.step.position.child sub)).FailsWithin (· ≠ ⟨c.step, fault⟩) :=
      fun e he h => hbuild t sub e he (congrArg LoweringError.step h)
    exact (Traced.FailsWithin.emit _).bind fun _ _ => hplan.bind fun _ _ => .pure _

end Context

namespace WherePredicateStep

variable {c : Context} {bys : List Traversal}

theorem operand_eq_exhausted (hbuild : c.FailsInside) {i sub k : Nat} {tag : String} :
    (operand c ⟨bys, c.config.policy, i⟩ sub tag).result =
        .error ⟨c.step, .modulatorsExhausted k⟩ ↔
      Modulators.at? bys c.config.policy i = none ∧ k = i + 1 := by
  unfold operand Modulators.next
  cases ht : Modulators.at? bys c.config.policy i with
  | none => simp [eq_comm]
  | some t =>
    have hone : (c.one (t.rootedAt tag).extract).FailsWithin
        (· ≠ ⟨c.step, .modulatorsExhausted k⟩) :=
      fun e he h => Context.failsWithin_one _ e he k (congrArg LoweringError.fault h)
    refine iff_of_false (fun h => ?_) (by simp)
    refine hone.bind (fun e _ => ?_) _ h rfl
    exact (Context.failsWithin_orSubquery hbuild _ e _ _ _).bind fun _ _ => .pure _

/-- **Operands run out at the first one that has no modulator**, when all before it are resolved. -/
theorem operands_eq_exhausted (hbuild : c.FailsInside) {i sub k : Nat} {tags : List String} :
    (operands c ⟨bys, c.config.policy, i⟩ sub tags).result =
        .error ⟨c.step, .modulatorsExhausted k⟩ ↔
      ∃ n rs, n < tags.length ∧ Operands c bys i sub (tags.take n) rs ∧
        Modulators.at? bys c.config.policy (i + n) = none ∧ k = i + n + 1 := by
  induction tags generalizing i sub with
  | nil =>
    refine iff_of_false (fun h => by cases h) ?_
    rintro ⟨n, rs, hlt, -⟩
    exact Nat.not_lt_zero n hlt
  | cons tag tags ih =>
    rw [operands, Traced.result_bind_eq_error, operand_eq_exhausted hbuild]
    constructor
    · rintro (⟨hnone, rfl⟩ | ⟨⟨r, m, next⟩, hoperand, h⟩)
      · exact ⟨0, [], Nat.zero_lt_succ _, .nil i sub, hnone, rfl⟩
      · obtain ⟨t, ht, hsize, hr, rfl, rfl⟩ := operand_eq_ok.1 hoperand
        rcases Traced.result_bind_eq_error.1 h with h | ⟨rs, -, h⟩
        · obtain ⟨n, rs, hlt, hrs, hnone, rfl⟩ := ih.1 h
          refine ⟨n + 1, r :: rs, Nat.succ_lt_succ hlt, .cons ht hsize hr hrs, ?_, by omega⟩
          rwa [Nat.add_right_comm] at hnone
        · cases h
    · rintro ⟨n, rs, hlt, hrs, hnone, rfl⟩
      cases n with
      | zero => exact .inl ⟨hnone, rfl⟩
      | succ n =>
        rw [List.take_succ_cons] at hrs
        cases hrs with
        | cons ht hsize hr hrest =>
          refine .inr ⟨_, operand_eq_ok.2 ⟨_, ht, hsize, hr, rfl, rfl⟩, ?_⟩
          refine Traced.result_bind_eq_error.2 (.inl (ih.2 ?_))
          refine ⟨n, _, Nat.lt_of_succ_lt_succ hlt, hrest, ?_, by omega⟩
          rwa [Nat.add_right_comm]

theorem Operands.exists_used {i sub : Nat} {tags : List String} {rs : List Resolved}
    (h : Operands c bys i sub tags rs) : ∃ used : List Traversal,
      (Modulators.run tags.length ⟨bys, c.config.policy, i⟩).1 = used.map some := by
  induction h with
  | nil => exact ⟨[], rfl⟩
  | @cons i sub tag tags t r rs hmodulator _ _ _ ih =>
    obtain ⟨used, hused⟩ := ih
    refine ⟨t :: used, ?_⟩
    rw [List.length_cons, Modulators.run_succ, List.map_cons, ← hused, ← hmodulator]
    rfl

/-- A `where` runs out after it has used some modulators. -/
structure RunsOutAfter (s : WherePredicateStep) (c : Context) (used : List Traversal) : Prop where
  /-- There is a select key for each comparison. -/
  comparisons : s.predicate.leafCount = s.selectKeys.length
  /-- Not all of the operands have used a modulator. -/
  asked : used.length < (s.startTag :: s.selectKeys).length
  /-- The operands that have used one are resolved. -/
  resolved : ∃ rs, Operands c s.bys 0 0 ((s.startTag :: s.selectKeys).take used.length) rs
  /-- The calls have handed out the used modulators, and the last one is refused. -/
  answers : (Modulators.run (used.length + 1) (.start s.bys c.config.policy)).1 =
    used.map some ++ [none]

/-- **A `where` that runs out reports one modulator more than it has used.** -/
theorem lower_eq_exhausted (hbuild : c.FailsInside) {s : WherePredicateStep} {k : Nat} :
    (s.lower c).result = .error ⟨c.step, .modulatorsExhausted k⟩ ↔
      ∃ used, s.RunsOutAfter c used ∧ k = used.length + 1 := by
  by_cases hcount : s.predicate.leafCount = s.selectKeys.length
  · have hlower : (s.lower c).result = .error ⟨c.step, .modulatorsExhausted k⟩ ↔
        (operands c (.start s.bys c.config.policy) 0 (s.startTag :: s.selectKeys)).result =
          .error ⟨c.step, .modulatorsExhausted k⟩ := by
      rw [lower_of_keyCount c hcount, Traced.result_bind_eq_error]
      simp
    rw [hlower, Modulators.start, operands_eq_exhausted hbuild]
    constructor
    · rintro ⟨n, rs, hlt, hrs, hnone, rfl⟩
      rw [Nat.zero_add] at hnone
      obtain ⟨used, hused⟩ := hrs.exists_used
      rw [List.length_take_of_le (Nat.le_of_lt hlt)] at hused
      obtain rfl : n = used.length := by
        have hlength := congrArg List.length hused
        rwa [Modulators.length_run, List.length_map] at hlength
      refine ⟨used, ⟨hcount, hlt, ⟨rs, hrs⟩, ?_⟩, by rw [Nat.zero_add]⟩
      rw [Modulators.run_concat, Modulators.start, hused, Nat.zero_add, hnone]
    · rintro ⟨used, ⟨-, hasked, ⟨rs, hrs⟩, hanswers⟩, rfl⟩
      refine ⟨used.length, rs, hasked, hrs, ?_, by rw [Nat.zero_add]⟩
      rw [Modulators.run_concat] at hanswers
      obtain ⟨-, hlast⟩ := List.append_inj' hanswers rfl
      exact (List.cons.inj hlast).1
  · have hrefused : s.lower c = c.fail (.keyCount s.selectKeys.length s.predicate.leafCount) :=
      if_pos hcount
    rw [hrefused]
    refine iff_of_false (by simp) ?_
    rintro ⟨used, hruns, -⟩
    exact hcount hruns.comparisons

end WherePredicateStep

/-! ## The count -/

namespace Modulators

/-- **Every call is counted, so the count is too high once a call is refused.** After a number of calls
the answers are the modulators handed out, as many as the supply allows, and then refusals. The count
is that of both together: it is the number of modulators handed out just if no call has been refused.
A `where` runs out just if some operands have used modulators and the next is refused; it reports one
modulator more than were used. -/
theorem consumed_of_run (bys : List Traversal) (policy : ModulatorPolicy) (n : Nat) :
    (let answers := (run n (start bys policy)).1
      let left := (run n (start bys policy)).2
      let handed := answers.reduceOption
      let refused := answers.countP Option.isNone
      answers = handed.map some ++ List.replicate refused none ∧
        handed.length = (supply? bys policy).elim n (min n) ∧
        left.consumed = handed.length + refused ∧
        (left.consumed = handed.length ↔ none ∉ answers)) ∧
    ∀ (s : WherePredicateStep) (config : Config) (position : Position) (k : Nat),
      let step : StepRef := ⟨"where", position⟩
      let c : Context := ⟨fun t scope => t.build config scope, config, step⟩
      (((ModulatedStep.wherePredicate s).lower config position).result =
          .error ⟨step, .modulatorsExhausted k⟩ ↔
        ∃ used, s.RunsOutAfter c used ∧ k = used.length + 1) ∧
      LoweringError.report ⟨step, .modulatorsExhausted k⟩ = .invalidStructure
        ("where@" ++ position.text) ("where() ran out of by() modulators after " ++ k.repr) := by
  constructor
  · intro answers left handed refused
    have hconsumed : left.consumed = handed.length + refused := by
      have hcount := consumed_eq n (start bys policy)
      rwa [start, Nat.zero_add] at hcount
    refine ⟨answers_of_run n _, length_handed bys policy n, hconsumed, ?_⟩
    rw [hconsumed, Nat.add_eq_left, List.countP_eq_zero]
    simp only [Option.isNone_iff_eq_none]
    exact List.forall_mem_ne'
  · intro s config position k step c
    have hinside : c.FailsInside := fun t i e he hstep =>
      (Traversal.inside_of_build he).ne (congrArg StepRef.position hstep).symm
    rw [ModulatedStep.lower_eq]
    exact ⟨WherePredicateStep.lower_eq_exhausted hinside, rfl⟩

open Traversal in
/-- Compares a record with two others by two properties, so that the third operand has none. -/
def compareByTwo : WherePredicateStep :=
  ⟨some "a", .all [.compareTo .gt .null, .compareTo .lt .null], ["b", "c"],
    [identity.values "x", identity.values "y"]⟩

theorem consumed_of_run_compareByTwo :
    let c : Context :=
      ⟨fun t scope => t.build .standard scope, .standard, ⟨"where", Position.root.child 0⟩⟩
    ∃ used, compareByTwo.RunsOutAfter c used ∧ used.length = 2 := by
  intro c
  have hfails : ((ModulatedStep.wherePredicate compareByTwo).lower .standard
      (Position.root.child 0)).result = .error ⟨c.step, .modulatorsExhausted 3⟩ := by cbv
  obtain ⟨-, hwhere⟩ := consumed_of_run compareByTwo.bys .broadcast 3
  obtain ⟨used, hruns, hcount⟩ := (hwhere compareByTwo .standard _ 3).1.1 hfails
  exact ⟨used, hruns, by omega⟩

/-- The third of three calls is refused and counted, and the `where` reports it. -/
theorem refused_call_counted :
    let calls := run 3 (start compareByTwo.bys .broadcast)
    calls.1.reduceOption.length = 2 ∧ calls.2.consumed = 3 ∧
      ((ModulatedStep.wherePredicate compareByTwo).lower .standard
          (Position.root.child 0)).result.mapError LoweringError.report =
        .error (.invalidStructure "where@0" "where() ran out of by() modulators after 3") := by
  have hfails : ((ModulatedStep.wherePredicate compareByTwo).lower .standard
      (Position.root.child 0)).result =
        .error ⟨⟨"where", Position.root.child 0⟩, .modulatorsExhausted 3⟩ := by cbv
  rw [hfails]
  exact ⟨rfl, rfl, rfl⟩

end Modulators
end TraversalPlan

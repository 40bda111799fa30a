import TraversalPlan.Proofs.Lowering.Beginnings
import TraversalPlan.Proofs.Lowering.Interruption
import TraversalPlan.Proofs.Text.Dotted
import TraversalPlan.Proofs.Text.Ends

/-!
# References to steps

Messages name a step by its name and its position. Of the steps that are lowered in a run, no two have
the same position, nor is a position printed like another. Therefore the name and the position in an
event or in a failure belong to one step of the run (**`Traversal.occurrences_of_build`**).

* `Position.eq_of_text`, `StepRef.position_of_text`: a position is read off what is printed.
* `Position.Under`, `Position.Inside`: a place at or further in than another, or properly further in.
* `Owns`: steps have different positions, all of them in some scope. The scopes of the subqueries of a
  step are apart, and so are those of the steps of a traversal (`Owns.flatMap`).
-/

namespace TraversalPlan

/-! ## Printed references -/

theorem Position.text_eq_dotted (p : Position) : p.text = dotted (p.path.map UInt32.toNat) := by
  rw [dotted, List.map_map]
  rfl

/-- **No two positions are printed alike.** -/
theorem Position.eq_of_text {p q : Position} (h : p.text = q.text) : p = q := by
  rw [text_eq_dotted, text_eq_dotted] at h
  have hpath : p.path = q.path :=
    List.map_injective_iff.2 (fun _ _ => UInt32.toNat_inj.1) (dotted_inj h)
  cases p
  cases q
  exact congrArg mk hpath

/-- **The position of a step is read off its reference**: it stands behind the last `@`. -/
theorem StepRef.position_of_text {s s' : StepRef} (h : s.text = s'.text) :
    s.position = s'.position := by
  have hreverse : ∀ s : StepRef,
      s.text.toList.reverse = s.position.text.toList.reverse ++ '@' :: s.name.toList.reverse := by
    intro s
    simp [text]
  have hposition : ∀ s : StepRef, ∀ c ∈ s.position.text.toList.reverse, c != '@' := by
    intro s c hc
    rw [Position.text_eq_dotted, List.mem_reverse] at hc
    have hkind := isDigit_or_eq_of_mem_dotted _ c hc
    by_contra hat
    obtain rfl : c = '@' := by simpa using hat
    exact absurd hkind (by decide)
  have heq := congrArg (fun text : String => text.toList.reverse) h
  simp only [hreverse] at heq
  have hparts := run_append_inj (hposition s) (hposition s') (by simp) (by simp) heq
  exact Position.eq_of_text (String.toList_inj.1 (List.reverse_inj.1 hparts.1))

/-! ## Places -/

namespace Position

/-- The place is at the position or further in. -/
def Under (p q : Position) : Prop := p.path <+: q.path

/-- The place is further in than the position. -/
def Inside (p q : Position) : Prop := ∃ i, (p.child i).Under q

variable {p q : Position} {i : Nat}

theorem under_refl (p : Position) : p.Under p := List.prefix_refl _

theorem Under.of_child (h : (p.child i).Under q) : p.Under q := (List.prefix_append _ _).trans h

theorem Inside.under : p.Inside q → p.Under q
  | ⟨_, h⟩ => h.of_child

theorem Inside.ne (h : p.Inside q) : p ≠ q := by
  rintro rfl
  obtain ⟨i, hi⟩ := h
  have hlength := List.IsPrefix.length_le hi
  rw [path_child, List.length_append, List.length_singleton] at hlength
  omega

end Position

/-! ## Steps at different places -/

/-- The steps have different positions, all of them in the scope. -/
structure Owns (scope : Position → Prop) (steps : List StepRef) : Prop where
  distinct : (steps.map StepRef.position).Nodup
  within : ∀ s ∈ steps, scope s.position

namespace Owns

variable {scope scope' : Position → Prop} {steps steps' : List StepRef} {p : Position}

theorem nil : Owns scope [] := ⟨.nil, by simp⟩

theorem mono (h : Owns scope steps) (hscope : ∀ q, scope q → scope' q) : Owns scope' steps :=
  ⟨h.distinct, fun s hs => hscope _ (h.within s hs)⟩

theorem sublist (h : Owns scope steps) (hsteps : steps'.Sublist steps) : Owns scope steps' :=
  ⟨h.distinct.sublist (hsteps.map _), fun s hs => h.within s (hsteps.subset hs)⟩

theorem cons {step : StepRef} (h : Owns step.position.Inside steps) :
    Owns step.position.Under (step :: steps) := by
  constructor
  · rw [List.map_cons, List.nodup_cons]
    refine ⟨fun hmem => ?_, h.distinct⟩
    obtain ⟨s, hs, hposition⟩ := List.mem_map.1 hmem
    exact (h.within s hs).ne hposition.symm
  · rw [List.forall_mem_cons]
    exact ⟨Position.under_refl _, fun s hs => (h.within s hs).under⟩

/-- **Steps under different numbers are apart.** -/
theorem flatMap {α : Type} {as : List α} {g : α → List StepRef} (number : α → Nat)
    (hnumbers : (as.map number).Nodup) (hbound : ∀ a ∈ as, number a < UInt32.size)
    (h : ∀ a ∈ as, Owns (p.child (number a)).Under (g a)) : Owns p.Inside (as.flatMap g) := by
  constructor
  · rw [List.map_flatMap, List.nodup_flatMap]
    refine ⟨fun a ha => (h a ha).distinct, ?_⟩
    refine (List.pairwise_map.1 hnumbers).imp_of_mem fun {a b} ha hb hne => ?_
    intro q hq hq'
    obtain ⟨s, hs, rfl⟩ := List.mem_map.1 hq
    obtain ⟨s', hs', hposition⟩ := List.mem_map.1 hq'
    have hunder := (h b hb).within s' hs'
    rw [hposition] at hunder
    exact hne (Position.eq_of_prefix ((h a ha).within s hs) hunder (hbound a ha) (hbound b hb))
  · intro s hs
    obtain ⟨a, ha, hs⟩ := List.mem_flatMap.1 hs
    exact ⟨number a, (h a ha).within s hs⟩

end Owns

/-! ## Steps of a run -/

section Runs

variable {build : Builder} {config : Config}

/-- The steps that the builder begins have different positions. -/
def Builder.Distinct (build : Builder) : Prop :=
  ∀ t scope, t.Fits → Owns scope.Inside (build t scope).begun

theorem Step.owns_subqueries (hbuild : build.Distinct) {s : Step} (hwidth : s.width < UInt32.size)
    (position : Position) :
    Owns position.Inside ((s.subqueries config.policy).flatMap (Slot.begun build position)) := by
  have hnumbered : Numbered (s.subqueries config.policy) 0 UInt32.size :=
    Step.numbered_subqueries hwidth
  refine .flatMap Slot.number ?_ (fun slot hslot => (hnumbered.bounds slot hslot).2) ?_
  · rw [List.Nodup, List.pairwise_map]
    exact hnumbered.ascending.imp Nat.ne_of_lt
  · intro slot hslot
    exact (hbuild _ _ (Step.fits_of_mem_subqueries hwidth hslot)).mono fun _ => Position.Inside.under

/-- **The steps that begin in the steps of a traversal have different positions.** -/
theorem Traversal.owns_steps (config : Config) (hbuild : build.Distinct) (haccounted : build.Accounted)
    {t : Traversal} (ht : t.Fits) (scope : Position) :
    Owns scope.Inside (t.steps.zipIdx.flatMap fun x =>
      (x.1.lowerNoted build config (scope.child x.2)).begun) := by
  refine .flatMap Prod.snd ?_ ?_ ?_
  · rw [List.zipIdx_map_snd]
    exact List.nodup_range'
  · intro x hx
    have hindex := List.snd_lt_of_mem_zipIdx hx
    have hlength := ht.1
    omega
  · intro x hx
    have hwidth : x.1.width < UInt32.size :=
      Nat.lt_of_le_of_lt (width_le_stepsWidth (List.fst_mem_of_mem_zipIdx hx)) ht.2
    have hbegun := (x.1.accounts_lowerNoted config haccounted (scope.child x.2)).begun
    exact (Owns.cons (x.1.owns_subqueries hbuild hwidth _)).sublist hbegun

theorem Builder.distinct_noted (config : Config) (count : Nat) : (noted config count).Distinct := by
  induction count with
  | zero => exact fun _ _ _ => .nil
  | succ count ih =>
    intro t scope ht
    have haccounted := accounted_noted config count
    exact (Traversal.owns_steps config ih haccounted ht scope).sublist
      (accounts_notedSteps config haccounted t scope).begun

end Runs

/-! ## One step for a reference -/

theorem filter_eq_singleton {α κ : Type} [DecidableEq κ] {key : α → κ} {as : List α} {a : α}
    (hkeys : (as.map key).Nodup) (ha : a ∈ as) : (as.filter fun b => key b = key a) = [a] := by
  obtain ⟨before, after, rfl⟩ := List.append_of_mem ha
  rw [List.map_append, List.map_cons, List.nodup_middle, List.nodup_cons, ← List.map_append] at hkeys
  have hother : ∀ b ∈ before ++ after, ¬ key b = key a := by
    intro b hb heq
    exact hkeys.1 (heq ▸ List.mem_map_of_mem hb)
  rw [List.forall_mem_append] at hother
  rw [List.filter_append, List.filter_cons_of_pos (by simp), List.filter_eq_nil_iff.2,
    List.filter_eq_nil_iff.2]
  · rfl
  · simpa using hother.2
  · simpa using hother.1

namespace Traversal

/-- The steps that are lowered in a run, in all subqueries at all depths. -/
def lowered (order : List Nat) (config : Config) (t : Traversal) (scope : Position) :
    List StepRef := (t.buildNoted order config scope).begun

/-- **A reference to a step points to one step of the run.** Of the steps that are lowered in a run, no
two have the same position or print it alike, and the name and the position in an event or a failure
are those of one of them only. If steps are lowered at the same time, this is so in whatever order they
end. -/
theorem occurrences_of_build (order : List Nat) (config : Config) {t : Traversal} (scope : Position)
    (hwidth : t.width < UInt32.size) :
    let run := t.buildEnding order config scope
    let steps := t.lowered order config scope
    (t.buildNoted order config scope).unnoted = run ∧
      (steps.map StepRef.position).Nodup ∧
      (steps.map fun s => s.position.text).Nodup ∧
      (∀ event ∈ run.log, ∀ step ∈ event.step?, (steps.filter fun s => s.text = step.text) = [step]) ∧
      ∀ e, run.result = .error e → (steps.filter fun s => s.text = e.step.text) = [e.step] := by
  intro run steps
  have hrun : (t.buildNoted order config scope).unnoted = run := unnoted_buildNoted order t scope
  obtain ⟨count, haccounts⟩ := t.accounts_buildNoted config order scope
  have hpositions : (steps.map StepRef.position).Nodup := by
    have howns := owns_steps config (Builder.distinct_noted config count)
      (Builder.accounted_noted config count) (fits_of_width hwidth) scope
    exact (howns.sublist haccounts.begun).distinct
  have hdistinct : steps.Pairwise fun s s' => s.position ≠ s'.position := List.pairwise_map.1 hpositions
  have htexts : (steps.map StepRef.text).Nodup :=
    List.pairwise_map.2 (hdistinct.imp fun hne h => hne (StepRef.position_of_text h))
  refine ⟨hrun, hpositions, ?_, ?_, ?_⟩
  · exact List.pairwise_map.2 (hdistinct.imp fun hne h => hne (Position.eq_of_text h))
  · intro event hevent step hstep
    rw [← hrun] at hevent
    have hmem : step ∈ steps := haccounts.events event (List.mem_of_mem_filter hevent) step hstep
    exact filter_eq_singleton htexts hmem
  · intro e he
    rw [← hrun] at he
    exact filter_eq_singleton htexts (haccounts.error e he)

/-- Sorts by the neighbours that pass a filter, whose last step fails. -/
def orderByFailing : Traversal :=
  let neighbours := identity.outgoing []
  let failing := neighbours.modulated (.select ⟨[], []⟩)
  (identity.vertices []).modulated
    (.order ⟨[⟨neighbours.modulated (.whereTraversal failing), .ascending⟩]⟩)

theorem occurrences_of_build_orderByFailing :
    (orderByFailing.lowered [1, 0] ⟨.strict, 7, true⟩ .root).map StepRef.text =
      ["V@0", "order@1", "out@1.0.0", "where@1.0.1", "out@1.0.1.0.0", "select@1.0.1.0.1"] ∧
    ∃ e, (orderByFailing.buildEnding [1, 0] ⟨.strict, 7, true⟩ .root).result = .error e ∧
      (orderByFailing.lowered [1, 0] ⟨.strict, 7, true⟩ .root).filter
        (fun s => s.text = "select@1.0.1.0.1") = [e.step] ∧
      (orderByFailing.lowered [1, 0] ⟨.strict, 7, true⟩ .root).filter
        (fun s => s.text = "where@1.0.1") = [⟨"where", ⟨[1, 0, 1]⟩⟩] := by
  have htexts : (orderByFailing.lowered [1, 0] ⟨.strict, 7, true⟩ .root).map StepRef.text =
      ["V@0", "order@1", "out@1.0.0", "where@1.0.1", "out@1.0.1.0.0", "select@1.0.1.0.1"] := by cbv
  have hfails : (orderByFailing.buildEnding [1, 0] ⟨.strict, 7, true⟩ .root).result =
      .error ⟨⟨"select", ⟨[1, 0, 1, 0, 1]⟩⟩, .selectWithoutKeys⟩ := by cbv
  have hlog : (orderByFailing.buildEnding [1, 0] ⟨.strict, 7, true⟩ .root).log =
      [.emitted ⟨"V", ⟨[0]⟩⟩ "Source", .subquery ⟨"order", ⟨[1]⟩⟩ ⟨"~expr_1_0", false⟩,
        .emitted ⟨"out", ⟨[1, 0, 0]⟩⟩ "Expand", .existence ⟨"where", ⟨[1, 0, 1]⟩⟩ .semi,
        .emitted ⟨"out", ⟨[1, 0, 1, 0, 0]⟩⟩ "Expand"] := by cbv
  have hevent : .existence ⟨"where", ⟨[1, 0, 1]⟩⟩ .semi ∈
      (orderByFailing.buildEnding [1, 0] ⟨.strict, 7, true⟩ .root).log := by simp [hlog]
  have hwidth : orderByFailing.width < UInt32.size := by decide
  obtain ⟨-, -, -, hevents, herror⟩ := occurrences_of_build [1, 0] ⟨.strict, 7, true⟩ .root hwidth
  exact ⟨htexts, _, hfails, herror _ hfails, hevents _ hevent _ rfl⟩

end Traversal
end TraversalPlan

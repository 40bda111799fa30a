import TraversalPlan.Proofs.Alias.Places
import TraversalPlan.Proofs.Lowering.Success
import TraversalPlan.Proofs.Traversal.Width
import TraversalPlan.Traversal.Build

/-!
# Generated columns have different names

Every step of a traversal stands at a path of its own, and so does every subquery of a step. The
columns of a step stand under its path, so that no name is generated twice in a whole plan, however
deep its subqueries are nested (**`generated_names_nodup`**).

* `Builder.Separates`: how subqueries are lowered keeps their columns under their own path.
* `Context.fresh_operators`: the operators of a rule, from its subqueries and its own columns.
* `fresh_lowerIn`: each rule keeps its columns under the path of the step.
* `Builder.separates_ofSteps`: the step from subqueries to traversals.
-/

namespace TraversalPlan

open Alias

/-- Subqueries keep their generated columns under the path of their scope. -/
def Builder.Separates (build : Builder) : Prop :=
  ∀ t scope plan, t.Fits → (build t scope).result = .ok plan →
    Fresh (below scope.path) plan.generated

/-! ## Rules -/

/-- The columns that the subquery of a resolved expression generates. -/
def Resolved.generated (r : Resolved) : List Alias :=
  Alias.generated (Operator.columnsOf r.subquery.toList)

section Rules

variable {c : Context} {ops : List Operator}

namespace Context

theorem placedAt_column (c : Context) (k : Alias.Category) (tag : String) (i : Nat) :
    (c.column k tag i).PlacedAt k (nested c.step.position.path i) := placedAt_allocate ..

theorem fresh_resolves (hbuild : c.build.Separates) {t : Traversal} (ht : t.Fits)
    {k : Alias.Category} (hk : k.isSubquery) {tag : String} {i : Nat} {e : Option String}
    {r : Resolved} (h : c.Resolves t (c.column k tag i) i e r) :
    Fresh (slot c.step.position.path i) r.generated := by
  cases h with
  | expression e => exact .nil
  | subquery plan hplan =>
    have hinner : Fresh (below (nested c.step.position.path i)) plan.generated :=
      hbuild t _ plan ht hplan
    have hown := Fresh.singleton (c.placedAt_column k tag i)
    have hcolumns : Resolved.generated ⟨some (.apply plan.operators .inner
        (some (c.column k tag i))), (c.column k tag i).expr⟩ =
        plan.generated ++ [c.column k tag i] := by
      simp [Resolved.generated, Operator.columns, Operator.boundAliases, Plan.generated, column]
    rw [hcolumns]
    refine (hinner.append hown ?_).mono ?_
    · -- the columns inside the subquery have longer paths than its own
      rw [Set.disjoint_singleton_right]
      exact fun hin => ne_of_mem_below hin rfl
    · rintro x (hx | rfl)
      · obtain ⟨j, hj⟩ := hx
        exact ⟨(List.prefix_append _ _).trans hj, fun heq => absurd heq (ne_of_mem_below ⟨j, hj⟩)⟩
      · exact ⟨List.prefix_rfl, fun _ => hk⟩

/-- **The columns of a rule**: those of its subqueries and those of its own operator. -/
theorem fresh_operators {resolved : List Resolved} {terminal : Operator} {n : Nat}
    (hslots : Fresh (Fresh.span (slot c.step.position.path) 0 n)
      (resolved.flatMap Resolved.generated))
    (hown : Fresh (own c.step.position.path) (generated terminal.columns)) :
    Fresh (below c.step.position.path)
      (generated (Operator.columnsOf (Resolved.operators resolved terminal))) := by
  have hcolumns : generated (Operator.columnsOf (Resolved.operators resolved terminal)) =
      resolved.flatMap Resolved.generated ++ generated terminal.columns := by
    rw [Resolved.operators, Operator.columnsOf_append, generated_append,
      Operator.columnsOf_filterMap, generated_flatMap, Operator.columnsOf_cons,
      Operator.columnsOf_nil, List.append_nil]
    rfl
  rw [hcolumns]
  refine (hslots.append hown ?_).mono ?_
  · rw [Set.disjoint_left]
    rintro x ⟨i, -, -, hx⟩ hxown
    exact Set.disjoint_left.1 disjoint_slot_own hx hxown
  · rintro x (⟨i, -, -, hx⟩ | hx)
    · exact slot_subset_below i hx
    · exact own_subset_below hx

theorem fresh_slots (hbuild : c.build.Separates) {α : Type} {xs : List α}
    {resolved : List Resolved} {t : α × Nat → Traversal} {k : Alias.Category}
    {tag : α × Nat → String} {e : α × Nat → Option String} (hk : k.isSubquery)
    (ht : ∀ x ∈ xs.zipIdx, (t x).Fits) (hlen : xs.length ≤ UInt32.size)
    (h : List.Forall₂ (fun x r => c.Resolves (t x) (c.column k (tag x) x.2) x.2 (e x) r)
      xs.zipIdx resolved) :
    Fresh (Fresh.span (slot c.step.position.path) 0 UInt32.size)
      (resolved.flatMap Resolved.generated) :=
  Fresh.flatMap_zipIdx (fun _ _ hij hj => disjoint_slot hij hj) h
    (fun x hx _ hr => fresh_resolves hbuild (ht x hx) hk hr) (by omega)

theorem fresh_resolved (hbuild : c.build.Separates) {α : Type} {l : List α} {t : α → Traversal}
    {resolved : List Resolved} (ht : ∀ x ∈ l, (t x).Fits) (hlen : l.length ≤ UInt32.size)
    (h : List.Forall₂ (fun x r => (c.resolve (t x.1) x.2).result = .ok r) l.zipIdx resolved) :
    Fresh (Fresh.span (slot c.step.position.path) 0 UInt32.size)
      (resolved.flatMap Resolved.generated) :=
  fresh_slots hbuild rfl (fun x hx => ht x.1 (List.fst_mem_of_mem_zipIdx hx)) hlen
    (h.imp fun _ _ hr => (resolve_eq_ok.1 hr).2)

/-- Columns of one category, numbered by the items of a list. Some may be named by the query. -/
theorem fresh_numbered {k : Alias.Category} (hk : k.isSubquery = false) {α β : Type} {xs : List α}
    {ys : List β} {t : α × Nat → String} {f : β → List Alias} (hlen : xs.length ≤ UInt32.size)
    (h : List.Forall₂ (fun x y => f y = [] ∨ f y = [c.column k (t x) x.2]) xs.zipIdx ys) :
    Fresh (own c.step.position.path ∩ {x | x.1 = k}) (ys.flatMap f) := by
  have hspan : Fresh (Fresh.span (fun i => {(k, nested c.step.position.path i)}) 0 UInt32.size)
      (ys.flatMap f) := by
    refine Fresh.flatMap_zipIdx (fun i j hij hj => ?_) h (fun x _ y hy => ?_) (by omega)
    · rw [Set.disjoint_singleton_left]
      intro hin
      exact nested_ne hij hj (Prod.ext_iff.1 hin).2
    · rcases hy with hy | hy
      · rw [hy]
        exact .nil
      · rw [hy]
        exact .singleton (c.placedAt_column ..)
  refine hspan.mono ?_
  rintro x ⟨i, -, -, rfl⟩
  exact ⟨⟨_, rfl, hk⟩, rfl⟩

end Context

open Context

theorem forall₂_zipWith {α β γ : Type} {P : β → γ → Prop} {f : α → β → γ} :
    ∀ {as : List α} {bs : List β}, as.length = bs.length → (∀ a b, P b (f a b)) →
      List.Forall₂ P bs (as.zipWith f bs)
  | [], [], _, _ => .nil
  | [], _ :: _, h, _ => by cases h
  | _ :: _, [], h, _ => by cases h
  | a :: as, b :: bs, h, hP => .cons (hP a b) (forall₂_zipWith (Nat.succ.inj h) hP)

theorem SelectStep.fresh_lower (hbuild : c.build.Separates) {s : SelectStep}
    (hs : (ModulatedStep.select s).width < UInt32.size) (h : (s.lower c).result = .ok ops) :
    Fresh (below c.step.position.path) (generated (Operator.columnsOf ops)) := by
  obtain ⟨keys, bys⟩ := s
  simp only [ModulatedStep.width, Nat.max_lt] at hs
  obtain ⟨-, hlen, resolved, hresolved, rfl⟩ := SelectStep.lower_eq_ok.1 h
  have hentries : (SelectStep.extract ⟨keys, bys⟩).entries.length ≤ UInt32.size := by
    rw [hlen]
    exact hs.1.le
  have hmodulator : ∀ i, (SelectStep.modulatorFor ⟨keys, bys⟩ i).width < UInt32.size := by
    intro i
    rcases modulatorFor_eq_identity_or_mem ⟨keys, bys⟩ i with h | h
    · rw [h]
      exact Nat.lt_of_le_of_lt (Nat.zero_le _) hs.1
    · exact Nat.lt_of_le_of_lt (width_le_traversalsWidth h) hs.2
  refine fresh_operators (fresh_slots hbuild rfl
    (fun x _ => Traversal.fits_rootedAt _ (hmodulator x.2)) hentries hresolved) ?_
  show Fresh _ (generated (List.filterMap ProjectItem.column _))
  rw [List.filterMap_eq_flatMap_toList, generated_flatMap, List.map_zip_eq_zipWith]
  refine (fresh_numbered (k := .projectedTag) (t := fun x => x.1.1) rfl hentries
    (forall₂_zipWith ?_ fun r x => ?_)).mono fun _ hx => hx.1
  · rw [← hresolved.length_eq]
  · dsimp only [Function.curry]
    split
    · exact .inl rfl
    · exact .inr rfl

theorem DedupStep.fresh_lower (hbuild : c.build.Separates) {s : DedupStep}
    (hs : (ModulatedStep.dedup s).width < UInt32.size) (h : (s.lower c).result = .ok ops) :
    Fresh (below c.step.position.path) (generated (Operator.columnsOf ops)) := by
  obtain ⟨hlen, resolved, hresolved, rfl⟩ := DedupStep.lower_eq_ok.1 h
  have hwidth : s.keys.length < UInt32.size ∧ s.modulatorOrIdentity.width < UInt32.size := by
    obtain ⟨keys, _ | t⟩ := s
    · exact ⟨hs, Nat.lt_of_le_of_lt (Nat.zero_le _) hs⟩
    · exact Nat.max_lt.1 hs
  have hentries : s.extract.entries.length ≤ UInt32.size := by
    rw [hlen, tags]
    split
    · decide
    · exact hwidth.1.le
  exact fresh_operators (fresh_slots hbuild rfl
    (fun x _ => Traversal.fits_rootedAt _ hwidth.2) hentries hresolved) .nil

theorem SampleStep.fresh_lower (hbuild : c.build.Separates) {s : SampleStep}
    (hs : (ModulatedStep.sample s).width < UInt32.size) (h : (s.lower c).result = .ok ops) :
    Fresh (below c.step.position.path) (generated (Operator.columnsOf ops)) := by
  obtain ⟨amount, weight, -, hweight, rfl⟩ := SampleStep.lower_eq_ok.1 h
  have hfits : s.modulatorOrIdentity.Fits := by
    obtain ⟨_, _, _ | t⟩ := s
    · exact Traversal.fits_of_width hs
    · exact Traversal.fits_of_width hs
  exact fresh_operators (fresh_resolved (l := [s.modulatorOrIdentity]) (t := id) hbuild
    (by simpa using hfits) (Nat.le_of_ble_eq_true rfl) (.cons hweight .nil)) .nil

theorem OrderStep.fresh_lower (hbuild : c.build.Separates) {s : OrderStep}
    (hs : (ModulatedStep.order s).width < UInt32.size) (h : (s.lower c).result = .ok ops) :
    Fresh (below c.step.position.path) (generated (Operator.columnsOf ops)) := by
  obtain ⟨resolved, hresolved, rfl⟩ := OrderStep.lower_eq_ok.1 h
  obtain ⟨comparators⟩ := s
  rw [ModulatedStep.width] at hs
  have hkeys : (∀ k ∈ (OrderStep.mk comparators).sortKeys, k.key.Fits) ∧
      (OrderStep.mk comparators).sortKeys.length ≤ UInt32.size := by
    unfold sortKeys
    split
    · exact ⟨by simpa using Traversal.fits_of_width (t := .identity) (by decide), by decide⟩
    · refine ⟨fun k hk => Traversal.fits_of_width ?_, ?_⟩
      · exact Nat.lt_of_le_of_lt (width_le_comparatorsWidth hk) hs
      · exact (Nat.lt_of_le_of_lt (length_le_comparatorsWidth _) hs).le
  exact fresh_operators (fresh_resolved hbuild hkeys.1 hkeys.2 hresolved) .nil

/-- The generated columns of a grouping are one for each key without a label and one for each
value. -/
theorem GroupStep.fresh_own {s : GroupStep} {keys : List GroupKey} {vals : List Aggregate}
    (hkeys : keys.length ≤ UInt32.size) (hvals : vals.length ≤ UInt32.size)
    (hcolumns : keys.map GroupKey.column = s.keyTraversals.zipIdx.map fun (key, i) => keyAlias c key i)
    (hvalues : List.Forall₂ (fun (value, i) v =>
      (aggregate c value (c.column .groupValue "" i)).result = .ok v) s.valueTraversals.zipIdx vals) :
    Fresh (own c.step.position.path) (generated (Operator.group keys vals).boundAliases) := by
  have hkeys' : s.keyTraversals.length ≤ UInt32.size := by
    have hlen := congrArg List.length hcolumns
    simp only [List.length_map, List.length_zipIdx] at hlen
    rwa [← hlen]
  have hvals' : s.valueTraversals.length ≤ UInt32.size := by
    have hlen := hvalues.length_eq
    rw [List.length_zipIdx] at hlen
    rwa [hlen]
  have hk : Fresh (own c.step.position.path ∩ {x | x.1 = .groupKey})
      (generated (keys.map GroupKey.column)) := by
    rw [hcolumns, List.map_eq_flatMap, generated_flatMap]
    refine fresh_numbered (t := fun _ => "") rfl hkeys' (List.forall₂_same.2 fun x _ => ?_)
    dsimp only [keyAlias]
    split
    · exact .inl rfl
    · exact .inr rfl
  have hv : Fresh (own c.step.position.path ∩ {x | x.1 = .groupValue})
      (generated (vals.map Aggregate.column)) := by
    rw [List.map_eq_flatMap, generated_flatMap]
    refine fresh_numbered (t := fun _ => "") rfl hvals' (hvalues.imp fun x v hv => .inr ?_)
    rw [column_of_aggregate hv]
    rfl
  rw [Operator.boundAliases, generated_append]
  refine (hk.append hv ?_).mono ?_
  · -- the columns of keys and those of values differ in category
    rw [Set.disjoint_left]
    rintro x ⟨-, hx⟩ ⟨-, hx'⟩
    cases hx.symm.trans hx'
  · rintro x (hx | hx)
    · exact hx.1
    · exact hx.1

theorem GroupStep.fresh_lower (hbuild : c.build.Separates) {s : GroupStep}
    (hs : (ModulatedStep.group s).width < UInt32.size) (h : (s.lower c).result = .ok ops) :
    Fresh (below c.step.position.path) (generated (Operator.columnsOf ops)) := by
  obtain ⟨resolved, values, hresolved, hvalues, rfl⟩ := GroupStep.lower_eq_ok.1 h
  obtain ⟨keys, vals, count⟩ := s
  simp only [ModulatedStep.width, Nat.max_lt] at hs
  have hkeys : (∀ k ∈ (GroupStep.mk keys vals count).keyTraversals, k.Fits) ∧
      (GroupStep.mk keys vals count).keyTraversals.length ≤ UInt32.size := by
    unfold keyTraversals
    split
    · exact ⟨by simpa using Traversal.fits_of_width (t := .identity) (by decide), by decide⟩
    · refine ⟨fun k hk => Traversal.fits_of_width ?_, ?_⟩
      · exact Nat.lt_of_le_of_lt (width_le_traversalsWidth hk) hs.1
      · exact (Nat.lt_of_le_of_lt (length_le_traversalsWidth _) hs.1).le
  have hvals : (GroupStep.mk keys vals count).valueTraversals.length ≤ UInt32.size := by
    unfold valueTraversals
    split
    · exact Nat.le_of_ble_eq_true rfl
    · exact (Nat.lt_of_le_of_lt (length_le_traversalsWidth _) hs.2).le
  have hlen := hresolved.length_eq.symm
  refine fresh_operators (fresh_resolved hbuild hkeys.1 hkeys.2 hresolved)
    (fresh_own ?_ ?_ (map_zipWith_right hlen fun _ _ => rfl) hvalues)
  · rw [List.length_zipWith, List.length_zipIdx]
    exact (min_le_right _ _).trans hkeys.2
  · rw [← hvalues.length_eq, List.length_zipIdx]
    exact hvals

theorem WherePredicateStep.fresh_operands (hbuild : c.build.Separates) {bys : List Traversal}
    (hbys : ∀ t ∈ bys, t.width < UInt32.size) {i sub : Nat} {tags : List String}
    {rs : List Resolved} (h : Operands c bys i sub tags rs)
    (hlen : sub + tags.length ≤ UInt32.size) :
    Fresh (Fresh.span (slot c.step.position.path) sub UInt32.size)
      (rs.flatMap Resolved.generated) := by
  induction h with
  | nil i sub => exact .nil
  | @cons i sub tag tags t r rs hmodulator hsingle hhead htail ih =>
    rw [List.length_cons] at hlen
    have hfits : (t.rootedAt tag).Fits := by
      refine Traversal.fits_rootedAt tag ?_
      rcases Modulators.eq_identity_or_mem hmodulator with rfl | ht
      · decide
      · exact hbys t ht
    have hslot := fresh_resolves hbuild hfits rfl hhead
    rw [List.flatMap_cons]
    cases he : (t.rootedAt tag).extract.single? with
    | some e =>
      -- an expression takes no number
      rw [he] at hhead ih
      cases hhead
      exact ih (by simp only [Option.isSome_some, if_true]; omega)
    | none =>
      rw [he] at ih
      have htail := ih (by simp only [Option.isSome_none, Bool.false_eq_true, if_false]; omega)
      simp only [Option.isSome_none, Bool.false_eq_true, if_false] at htail
      refine (hslot.append htail ?_).mono ?_
      · rw [Set.disjoint_left]
        rintro x hx ⟨j, hj, hjN, hxj⟩
        exact Set.disjoint_left.1 (disjoint_slot (by omega) hjN) hx hxj
      · rintro x (hx | ⟨j, hj, hjN, hx⟩)
        · exact ⟨sub, le_refl _, by omega, hx⟩
        · exact ⟨j, by omega, hjN, hx⟩

theorem WherePredicateStep.fresh_lower (hbuild : c.build.Separates) {s : WherePredicateStep}
    (hs : (ModulatedStep.wherePredicate s).width < UInt32.size) (h : (s.lower c).result = .ok ops) :
    Fresh (below c.step.position.path) (generated (Operator.columnsOf ops)) := by
  obtain ⟨startKey, p, selectKeys, bys⟩ := s
  simp only [ModulatedStep.width, Nat.max_lt] at hs
  obtain ⟨-, subject, keys, hoperands, rfl⟩ := WherePredicateStep.lower_eq_ok.1 h
  refine fresh_operators (fresh_operands hbuild (fun t ht => ?_) hoperands ?_) .nil
  · exact Nat.lt_of_le_of_lt (width_le_traversalsWidth ht) hs.2
  · rw [List.length_cons]
    have := hs.1.2
    dsimp only
    omega

theorem Traversal.fresh_lowerFilter (hbuild : c.build.Separates) {t : Traversal}
    {filter : String → String} {join : JoinKind} (ht : t.width < UInt32.size)
    (h : (t.lowerFilter c filter join).result = .ok ops) :
    Fresh (below c.step.position.path) (generated (Operator.columnsOf ops)) := by
  obtain ⟨-, ⟨e, -, rfl⟩ | ⟨-, plan, hplan, rfl⟩⟩ := Traversal.lowerFilter_eq_ok.1 h
  · exact .nil
  · have hplan := hbuild t _ plan (Traversal.fits_of_width ht) hplan
    have hcolumns : generated (Operator.columnsOf [.apply plan.operators join none]) =
        plan.generated := by
      simp [Operator.columns, Operator.boundAliases, Plan.generated]
    rw [hcolumns]
    exact hplan.mono (below_nested_subset 0)

theorem ElementaryStep.fresh_lower {s : ElementaryStep} {position : Position}
    (h : s.lower position = .ok ops) :
    Fresh (below position.path) (generated (Operator.columnsOf ops)) := by
  obtain ⟨-, rfl⟩ := lower_eq_ok.1 h
  cases s with
  | reduce r =>
    refine (Fresh.singleton (placedAt_allocate .groupValue "" position 0)).mono ?_
    rintro x rfl
    exact own_subset_below ⟨0, rfl, rfl⟩
  | hasLabel labels => cases labels <;> exact .nil
  | _ => exact .nil

end Rules

/-! ## Steps and traversals -/

/-- **The columns of a step stand under its path.** -/
theorem StepKind.fresh_lowerIn {c : Context} (hbuild : c.build.Separates) {k : StepKind}
    {l : List String} {ops : List Operator} (hk : Step.width ⟨k, l⟩ < UInt32.size)
    (h : (k.lowerIn c).result = .ok ops) :
    Fresh (below c.step.position.path) (generated (Operator.columnsOf ops)) := by
  cases k with
  | elementary s => exact ElementaryStep.fresh_lower (lowerIn_elementary_eq_ok.1 h)
  | modulated m =>
    cases m with
    | select s => exact s.fresh_lower hbuild hk h
    | dedup s => exact s.fresh_lower hbuild hk h
    | sample s => exact s.fresh_lower hbuild hk h
    | order s => exact s.fresh_lower hbuild hk h
    | group s => exact s.fresh_lower hbuild hk h
    | wherePredicate s => exact s.fresh_lower hbuild hk h
    | whereTraversal t => exact t.fresh_lowerFilter hbuild hk h
    | not t => exact t.fresh_lowerFilter hbuild hk h

theorem Step.fresh_lower {build : Builder} (hbuild : build.Separates) {config : Config} {s : Step}
    {position : Position} {ops : List Operator} (hs : s.width < UInt32.size)
    (h : (s.lower build config position).result = .ok ops) :
    Fresh (below position.path) (generated (Operator.columnsOf ops)) := by
  obtain ⟨kind, labels⟩ := s
  obtain ⟨own, hown, rfl⟩ := Step.lower_eq_ok.1 h
  have hbinding : generated (Operator.columnsOf (Step.binding ⟨kind, labels⟩)) = [] := by
    unfold binding
    cases labels <;> rfl
  rw [Operator.columnsOf_append, generated_append, hbinding, List.append_nil]
  exact StepKind.fresh_lowerIn (k := kind) (l := labels) hbuild hs hown

theorem fresh_steps {build : Builder} (hbuild : build.Separates) {config : Config} {t : Traversal}
    (ht : t.Fits) {scope : Position} {parts : List (List Operator)}
    (h : List.Forall₂ (fun x ops => (Step.lower build config x.1 (scope.child x.2)).result = .ok ops)
      t.steps.zipIdx parts) :
    Fresh (below scope.path) (Plan.generated ⟨parts.flatten⟩) := by
  rw [Plan.generated, Operator.columnsOf_flatten, generated_flatMap]
  refine (Fresh.flatMap_zipIdx (R := fun i => within (nested scope.path i))
    (fun _ _ hij hj => disjoint_within_nested hij hj) h (fun x hx ops hops => ?_)
    (N := UInt32.size) (by have := ht.1; omega)).mono ?_
  · have hx := width_le_stepsWidth (List.fst_mem_of_mem_zipIdx hx)
    refine (Step.fresh_lower hbuild (Nat.lt_of_le_of_lt hx ht.2) hops).mono ?_
    rintro y ⟨j, hy⟩
    exact (List.prefix_append _ _).trans hy
  · rintro x ⟨i, -, -, hx⟩
    exact ⟨_, hx⟩

/-- **If subqueries keep their columns apart, so do traversals.** -/
theorem Builder.separates_ofSteps {build : Builder} (hbuild : build.Separates) (config : Config) :
    (ofSteps build config).Separates := by
  intro t scope plan ht h
  obtain ⟨parts, hparts, rfl⟩ := ofSteps_eq_ok.1 h
  exact fresh_steps hbuild ht hparts

theorem Builder.separates_inner (config : Config) : ∀ depth, (inner config depth).Separates
  | 0 => by
    intro t scope plan _ h
    obtain rfl := Except.ok.inj h
    exact .nil
  | depth + 1 => by
    rw [inner, ofDepth_eq_ofSteps]
    exact separates_ofSteps (separates_inner config depth) config

/-- **No name is generated twice** in a plan, at whatever depth the columns are bound. If steps are
lowered at the same time, they may end in any order. -/
theorem generated_names_nodup {order : List Nat} {config : Config} {t : Traversal}
    {scope : Position} {plan : Plan} (hwidth : t.width < UInt32.size)
    (h : (t.buildEnding order config scope).result = .ok plan) :
    (plan.generated.map Alias.name).Nodup := by
  obtain ⟨depth, parts, hparts, rfl⟩ := Traversal.steps_of_build h
  exact (fresh_steps (Builder.separates_inner config depth) (Traversal.fits_of_width hwidth)
    hparts).nodup

open Traversal in
/-- The vertices by their number of neighbours, and then by a subquery that sorts in turn. -/
def nestedOrder : Traversal :=
  let degree := (identity.outgoing []).count
  let sorted := ((identity.outgoing []).modulated (.order ⟨[⟨degree, .ascending⟩]⟩)).count
  (identity.vertices []).modulated (.order ⟨[⟨degree, .descending⟩, ⟨sorted, .ascending⟩]⟩)

theorem generated_names_nodup_nestedOrder :
    ∃ plan, nestedOrder.width < UInt32.size ∧
      (nestedOrder.build .standard .root).result = .ok plan ∧
      plan.generated.length = 6 ∧ (plan.generated.map Alias.name).Nodup := by
  have hwidth : nestedOrder.width < UInt32.size := by decide
  have hcount : (nestedOrder.build .standard .root).result.map (fun p => p.generated.length) =
      .ok 6 := by cbv
  cases h : (nestedOrder.build .standard .root).result with
  | error e =>
    rw [h] at hcount
    cases hcount
  | ok plan =>
    rw [h] at hcount
    exact ⟨plan, hwidth, rfl, Except.ok.inj hcount, generated_names_nodup hwidth h⟩

end TraversalPlan

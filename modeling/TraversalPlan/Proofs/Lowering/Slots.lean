import Mathlib.Data.List.Permutation
import TraversalPlan.Lowering.Build
import TraversalPlan.Proofs.Lowering.Binder

/-!
# Slots of a step

Every rule does the same three things. It looks for faults of the step itself, it turns the
sub-traversals in its slots into expressions from left to right, and it writes one operator around the
expressions (**`ModulatedStep.lowerIn_eq`**). What the rules differ in is data: the list of slots and
that operator.

* `Slot`: a place in a step where an expression stands.
* `Context.fill`: the expression of a slot, with its subquery if it needs one.
* `ModulatedStep.fault?`, `ModulatedStep.slots`, `ModulatedStep.terminal`: the three parts of a rule.
* `GroupStep.aggregate_eq`: a value of a group has one aggregate, or one fault.
* `SelectStep.lower_eq` and its like: one lemma for each rule.
-/

namespace TraversalPlan

/-! ## Sequences -/

namespace Traced

variable {ε α β γ : Type}

theorem traverse_map (f : β → Traced ε γ) (g : α → β) (as : List α) :
    traverse f (as.map g) = traverse (fun a => f (g a)) as := by
  induction as with
  | nil => rfl
  | cons a as ih => rw [List.map_cons, traverse_cons, traverse_cons, ih]

theorem traverse_singleton (f : α → Traced ε β) (a : α) :
    traverse f [a] = do
      let b ← f a
      return [b] := by
  rw [traverse_cons, traverse_nil]
  rfl

theorem traverse_congr {f g : α → Traced ε β} {as : List α} (h : ∀ a ∈ as, f a = g a) :
    traverse f as = traverse g as := by
  induction as with
  | nil => rfl
  | cons a as ih =>
    obtain ⟨hhead, htail⟩ := List.forall_mem_cons.1 h
    rw [traverse_cons, traverse_cons, hhead, ih htail]

end Traced

theorem map_fst_mapIdx {α β : Type} (as : List α) (f : Nat → α → β) :
    (as.mapIdx fun i a => (a, f i a)).map Prod.fst = as := by
  apply List.ext_getElem <;> simp

theorem map_fst_map {α β : Type} (as : List α) (f : α → β) :
    (as.map fun a => (a, f a)).map Prod.fst = as := by
  rw [List.map_map]
  exact List.map_id _

/-- A map is as long as the list it is made of just if the keys are different. -/
theorem OrderedMap.length_entries_ofList {κ ν : Type} [DecidableEq κ] {es : List (κ × ν)} :
    (ofList es).entries.length = es.length ↔ (es.map Prod.fst).Nodup := by
  constructor
  · intro h
    have hsub : (ofList es).entries.map Prod.fst ⊆ es.map Prod.fst :=
      List.map_subset _ fun x hx => mem_of_mem_ofList hx
    have hperm : ((ofList es).entries.map Prod.fst).Perm (es.map Prod.fst) :=
      (List.subperm_of_subset (ofList es).distinct hsub).perm_of_length_le (by simp [h])
    exact hperm.nodup_iff.1 (ofList es).distinct
  · intro h
    rw [entries_ofList h]

theorem Traversal.rootedAt_empty (t : Traversal) : t.rootedAt "" = t := if_pos rfl

/-! ## Slots -/

/-- A place in a step where an expression stands: a modulator applied to the record of a tag. -/
structure Slot where
  /-- The tag of the record. The empty tag is the current record. -/
  tag : String
  modulator : Traversal
  /-- The whole traversal is extracted, and must have one entry. Otherwise the modulator is followed
  from the record of the tag. -/
  checked : Bool
  /-- What the column of the subquery holds. -/
  category : Alias.Category
  /-- The number of the subquery within the step. -/
  number : Nat

namespace Slot

/-- What is lowered if the slot needs a subquery. -/
def traversal (s : Slot) : Traversal := s.modulator.rootedAt s.tag

def extraction (s : Slot) : Extraction :=
  if s.checked then s.traversal.extract else .single s.tag (s.modulator.exprAt? s.tag)

/-- The expression of the slot, if it needs no subquery. -/
def expr? (s : Slot) : Option String := s.extraction.single?

/-- The tag in the name of the column: only the subquery of a projected tag is named after it. -/
def label (s : Slot) : String :=
  match s.category with
  | .tagSubquery => s.tag
  | _ => ""

/-- The column of the subquery, for a step at a position. -/
def column (s : Slot) (p : Position) : Alias :=
  .allocate s.category s.label p (UInt32.ofNat s.number)

/-- What stands for the slot in the operator of a step at a position. -/
def expression (s : Slot) (p : Position) : String := s.expr?.getD (s.column p).expr

section

variable {t : Traversal} (i : Nat)

theorem traversal_current : Slot.traversal ⟨"", t, true, .subquery, i⟩ = t := t.rootedAt_empty

/-- A checked slot of the current record asks for the expression of its modulator. -/
theorem expr?_current : Slot.expr? ⟨"", t, true, .subquery, i⟩ = t.extract.single? := by
  rw [expr?, extraction, if_pos rfl, traversal_current]

theorem filter_current_of_some {e : String} (h : t.extract.single? = some e) :
    List.filter (fun s : Slot => s.expr?.isNone) [⟨"", t, true, .subquery, i⟩] = [] := by
  rw [List.filter_cons_of_neg (by simp [expr?_current, h]), List.filter_nil]

theorem filter_current_of_none (h : t.extract.single? = none) :
    List.filter (fun s : Slot => s.expr?.isNone) [⟨"", t, true, .subquery, i⟩] =
      [⟨"", t, true, .subquery, i⟩] := by
  rw [List.filter_cons_of_pos (by simp [expr?_current, h]), List.filter_nil]

end

end Slot

/-- An extraction with an expression has one entry. -/
theorem Extraction.size_of_single? {x : Extraction} {e : String} (h : x.single? = some e) :
    x.size = 1 := by
  unfold single? at h
  split at h
  · rename_i entries
    rw [OrderedMap.size, entries, List.length_singleton]
  · cases h

namespace Context

variable {c : Context}

/-- The expression of a slot, with its subquery if it needs one. -/
def fill (c : Context) (s : Slot) : Lowering Resolved := do
  let e ← c.one s.extraction
  c.orSubquery e s.traversal (s.column c.step.position) s.number

@[simp]
theorem fail_bind {α β : Type} (fault : Fault) (f : α → Lowering β) :
    c.fail fault >>= f = c.fail fault := rfl

theorem one_of_size {x : Extraction} (h : x.size = 1) : c.one x = pure x.single? := if_pos h

theorem one_of_size_ne {x : Extraction} (h : x.size ≠ 1) :
    c.one x = c.fail (.notOneExpression x.size) := if_neg h

theorem one_single (tag : String) (e : Option String) : c.one (.single tag e) = pure e := by
  cases e <;> rfl

/-- A slot that has not one entry is refused. -/
theorem fill_of_size_ne {s : Slot} (h : s.extraction.size ≠ 1) :
    c.fill s = c.fail (.notOneExpression s.extraction.size) := by
  rw [fill, one_of_size_ne h, fail_bind]

/-- A pure slot is filled with its expression. -/
theorem fill_of_expr? {s : Slot} {e : String} (h : s.expr? = some e) :
    c.fill s = pure ⟨none, e⟩ := by
  have hsize : s.extraction.size = 1 := Extraction.size_of_single? h
  rw [fill, one_of_size hsize, pure_bind, ← Slot.expr?, h]
  rfl

/-- Any other slot is filled with a subquery. -/
theorem fill_of_none {s : Slot} (hsize : s.extraction.size = 1) (h : s.expr? = none) :
    c.fill s = c.materialize s.traversal (s.column c.step.position) s.number := by
  rw [fill, one_of_size hsize, pure_bind, ← Slot.expr?, h]
  rfl

/-- A slot that is not checked is filled as its modulator says. -/
theorem fill_unchecked (tag : String) (t : Traversal) (category : Alias.Category) (i : Nat) :
    c.fill ⟨tag, t, false, category, i⟩ = c.orSubquery (t.exprAt? tag) (t.rootedAt tag)
      (Slot.column ⟨tag, t, false, category, i⟩ c.step.position) i := by
  rw [fill, Slot.extraction, if_neg Bool.false_ne_true, one_single, pure_bind]
  rfl

/-- A checked slot of the current record is filled by resolving its modulator. -/
theorem fill_current (t : Traversal) (i : Nat) :
    c.fill ⟨"", t, true, .subquery, i⟩ = c.resolve t i := by
  rw [fill, Slot.extraction, if_pos rfl, Slot.traversal, t.rootedAt_empty]
  rfl

end Context

/-! ## Slots of the rules -/

/-- The slots of sub-traversals that are each resolved for the current record. -/
def slotsOf (ts : List Traversal) : List Slot :=
  ts.zipIdx.map fun (t, i) => ⟨"", t, true, .subquery, i⟩

def SelectStep.slots (s : SelectStep) : List Slot :=
  s.keys.zipIdx.map fun (key, i) => ⟨key, s.modulatorFor i, false, .tagSubquery, i⟩

def DedupStep.slots (s : DedupStep) : List Slot :=
  s.tags.zipIdx.map fun (tag, i) => ⟨tag, s.modulatorOrIdentity, false, .subquery, i⟩

/-- The slots of the records of tags, from the modulator with an index and the subquery with a number
on. There are no slots after the last modulator. -/
def WherePredicateStep.slotsFrom (bys : List Traversal) (policy : ModulatorPolicy) :
    Nat → Nat → List String → List Slot
  | _, _, [] => []
  | i, number, tag :: tags =>
    match Modulators.at? bys policy i with
    | none => []
    | some t =>
      let slot : Slot := ⟨tag, t, true, .subquery, number⟩
      slot :: slotsFrom bys policy (i + 1) (if slot.expr?.isSome then number else number + 1) tags

theorem WherePredicateStep.length_slotsFrom_le (bys : List Traversal) (policy : ModulatorPolicy)
    (i number : Nat) (tags : List String) :
    (slotsFrom bys policy i number tags).length ≤ tags.length := by
  induction tags generalizing i number with
  | nil => exact Nat.le_refl _
  | cons tag tags ih =>
    rw [slotsFrom]
    cases Modulators.at? bys policy i with
    | none => exact Nat.zero_le _
    | some t => exact Nat.succ_le_succ (ih _ _)

def WherePredicateStep.slots (s : WherePredicateStep) (policy : ModulatorPolicy) : List Slot :=
  slotsFrom s.bys policy 0 0 (s.startTag :: s.selectKeys)

/-- The operator that filters records by a traversal. -/
def Traversal.filterOperator (t : Traversal) (c : Context) (filter : String → String)
    (join : JoinKind) : Lowering Operator := do
  match ← c.one t.extract with
  | some e => return .select (filter e)
  | none => c.existence t join

namespace ModulatedStep

/-- A fault of the step itself, which is found before any slot is filled. -/
def fault? : ModulatedStep → Option Fault
  | select s =>
    if s.keys = [] then some .selectWithoutKeys
    else if ¬ s.keys.Nodup then some .repeatedSelectKeys
    else none
  | dedup s => if ¬ s.tags.Nodup then some .repeatedDedupKeys else none
  | sample s =>
    match SampleAmount.ofNumber? s.amount with
    | none => some (.sampleAmount s.amount)
    | some _ => none
  | wherePredicate s =>
    if s.predicate.leafCount ≠ s.selectKeys.length then
      some (.keyCount s.selectKeys.length s.predicate.leafCount)
    else none
  | _ => none

/-- The slots from left to right. -/
def slots (policy : ModulatorPolicy) : ModulatedStep → List Slot
  | select s => s.slots
  | dedup s => s.slots
  | sample s => slotsOf [s.modulatorOrIdentity]
  | order s => slotsOf (s.sortKeys.map Comparator.key)
  | group s => slotsOf s.keyTraversals
  | wherePredicate s => s.slots policy
  | whereTraversal _ => []
  | not _ => []

/-- The operator around the expressions of the slots. -/
def terminal (c : Context) (es : List String) : ModulatedStep → Lowering Operator
  | select s => pure (.project (es.zipWith (fun e (key, i) =>
      ⟨e, if s.keys.length = 1 then none else some (c.column .projectedTag key i)⟩) s.keys.zipIdx))
  | dedup _ => pure (.dedup es)
  | sample s =>
    match SampleAmount.ofNumber? s.amount with
    | none => c.fail (.sampleAmount s.amount)
    | some amount =>
      pure (.sample amount (s.seed.getD c.config.defaultSampleSeed) (es.headD ""))
  | order s => pure (.order (es.zipWith (fun e k => ⟨e, k.order⟩) s.sortKeys))
  | group s => do
    let values ← Traced.traverse
      (fun (v, i) => GroupStep.aggregate c v (c.column .groupValue "" i)) s.valueTraversals.zipIdx
    return .group (es.zipWith (fun e (k, i) => ⟨e, GroupStep.keyAlias c k i⟩)
      s.keyTraversals.zipIdx) values
  | wherePredicate s =>
    if es.length < s.selectKeys.length + 1 then c.fail (.modulatorsExhausted (es.length + 1))
    else pure (.select ((s.predicate.bind es.tail).1.flatten (es.headD "")))
  | whereTraversal t => t.filterOperator c (fun e => e) .semi
  | not t => t.filterOperator c Expr.negate .anti

/-- The three parts of a rule one after the other. -/
def lowerParts (m : ModulatedStep) (c : Context) : Lowering (List Operator) :=
  match m.fault? with
  | some fault => c.fail fault
  | none => do
    let resolved ← Traced.traverse c.fill (m.slots c.config.policy)
    let operator ← m.terminal c (resolved.map Resolved.expression)
    return Resolved.operators resolved operator

end ModulatedStep

/-! ## Values of a group -/

namespace GroupStep

/-- The fault of the steps before an aggregate. -/
def sourceFault? (steps : List Step) : Option Fault :=
  if steps = [] then none
  else if (extractSteps steps).size ≠ 1 then some (.notOneExpression (extractSteps steps).size)
  else if (extractSteps steps).single? = none then some .impureGroupSource
  else none

/-- The fault of a value traversal. -/
def valueFault? (value : Traversal) : Option Fault :=
  match splitLast? value.steps with
  | none => some .emptyGroupValue
  | some (steps, ⟨.elementary (.reduce _), _⟩) => sourceFault? (dropPlainDedup steps)
  | some (_, last) => some (.notAnAggregate last.name)

/-- **A value has one aggregate, or one fault.** The step at work only lends its name to the failure. -/
theorem aggregate_eq (value : Traversal) : ∃ kind e, ∀ c a,
    aggregate c value a = (valueFault? value).elim (pure ⟨kind, e, a⟩) c.fail := by
  have hsource : ∀ steps, ∃ e, ∀ c : Context,
      source c steps = (sourceFault? steps).elim (pure e) c.fail := by
    intro steps
    unfold source sourceFault?
    by_cases hsteps : steps = []
    · exact ⟨none, fun c => by simp [hsteps]⟩
    refine ⟨(extractSteps steps).single?, fun c => ?_⟩
    rw [if_neg (by simpa using hsteps), if_neg hsteps]
    by_cases hsize : (extractSteps steps).size = 1
    · rw [Context.one_of_size hsize, pure_bind, if_neg (not_not_intro hsize)]
      cases (extractSteps steps).single? <;> rfl
    · rw [Context.one_of_size_ne hsize, Context.fail_bind, if_pos hsize]
      rfl
  unfold aggregate valueFault?
  cases splitLast? value.steps with
  | none => exact ⟨.count, none, fun c a => rfl⟩
  | some split =>
    obtain ⟨steps, ⟨kind, labels⟩⟩ := split
    cases kind with
    | modulated m => exact ⟨.count, none, fun c a => rfl⟩
    | elementary s =>
      cases s with
      | reduce r =>
        obtain ⟨e, he⟩ := hsource (dropPlainDedup steps)
        let plain := AggregateKind.ofReducer r
        refine ⟨if endsInDedup steps then plain.distinct else plain, e, fun c a => ?_⟩
        dsimp only
        rw [he]
        cases sourceFault? (dropPlainDedup steps) <;> rfl
      | _ => exact ⟨.count, none, fun c a => rfl⟩

/-- A value asks for no modulators. -/
theorem valueFault?_ne (value : Traversal) (n : Nat) :
    valueFault? value ≠ some (.modulatorsExhausted n) := by
  unfold valueFault? sourceFault?
  grind

end GroupStep

/-! ## One lemma for each rule -/

section Rules

variable (c : Context)

theorem traverse_slotsOf (ts : List Traversal) :
    Traced.traverse c.fill (slotsOf ts) =
      Traced.traverse (fun x => c.resolve x.1 x.2) ts.zipIdx := by
  rw [slotsOf, Traced.traverse_map]
  exact Traced.traverse_congr fun x _ => c.fill_current x.1 x.2

theorem SelectStep.lower_eq (s : SelectStep) :
    s.lower c = (ModulatedStep.select s).lowerParts c := by
  let entry : Nat → String → String × Option String :=
    fun i key => (key, (s.modulatorFor i).exprAt? key)
  have hfst : (s.keys.mapIdx entry).map Prod.fst = s.keys := map_fst_mapIdx s.keys _
  have hlen : s.extract.entries.length = s.keys.length ↔ s.keys.Nodup := by
    have h : s.extract.entries.length = (s.keys.mapIdx entry).length ↔
        ((s.keys.mapIdx entry).map Prod.fst).Nodup := OrderedMap.length_entries_ofList
    rwa [hfst, List.length_mapIdx] at h
  unfold SelectStep.lower ModulatedStep.lowerParts ModulatedStep.fault?
  by_cases hkeys : s.keys = []
  · simp [hkeys]
  by_cases hdistinct : s.keys.Nodup
  · have hentries : s.extract.entries.zipIdx = s.keys.zipIdx.map fun x => (entry x.2 x.1, x.2) := by
      rw [SelectStep.extract, OrderedMap.entries_ofList (by rwa [hfst])]
      apply List.ext_getElem <;> simp [entry]
    simp only [List.isEmpty_iff, hkeys, hlen.2 hdistinct, hdistinct, hentries, if_false,
      not_true_eq_false, ne_eq, ModulatedStep.slots, SelectStep.slots, Traced.traverse_map,
      Context.fill_unchecked]
    refine congrArg _ (funext fun resolved => ?_)
    rw [ModulatedStep.terminal, pure_bind, List.zip_eq_zipWith, List.map_zipWith,
      List.zipWith_map_left, List.zipWith_map_right]
  · have hne : s.extract.entries.length ≠ s.keys.length := fun h => hdistinct (hlen.1 h)
    simp [hkeys, hdistinct, hne]

theorem DedupStep.lower_eq (s : DedupStep) :
    s.lower c = (ModulatedStep.dedup s).lowerParts c := by
  let entry : String → String × Option String :=
    fun tag => (tag, s.modulatorOrIdentity.exprAt? tag)
  have hfst : (s.tags.map entry).map Prod.fst = s.tags := map_fst_map s.tags _
  have hlen : s.extract.entries.length = s.tags.length ↔ s.tags.Nodup := by
    have h : s.extract.entries.length = (s.tags.map entry).length ↔
        ((s.tags.map entry).map Prod.fst).Nodup := OrderedMap.length_entries_ofList
    rwa [hfst, List.length_map] at h
  unfold DedupStep.lower ModulatedStep.lowerParts ModulatedStep.fault?
  by_cases hdistinct : s.tags.Nodup
  · have hentries : s.extract.entries.zipIdx = s.tags.zipIdx.map fun x => (entry x.1, x.2) := by
      rw [DedupStep.extract, OrderedMap.entries_ofList (by rwa [hfst]), List.zipIdx_map]
      rfl
    simp only [hlen.2 hdistinct, hdistinct, hentries, if_false, not_true_eq_false, ne_eq,
      ModulatedStep.slots, DedupStep.slots, Traced.traverse_map, Context.fill_unchecked]
    rfl
  · have hne : s.extract.entries.length ≠ s.tags.length := fun h => hdistinct (hlen.1 h)
    simp [hdistinct, hne]

theorem SampleStep.lower_eq (s : SampleStep) :
    s.lower c = (ModulatedStep.sample s).lowerParts c := by
  simp only [SampleStep.lower, ModulatedStep.lowerParts, ModulatedStep.fault?,
    ModulatedStep.terminal]
  cases SampleAmount.ofNumber? s.amount with
  | none => rfl
  | some amount =>
    simp only [ModulatedStep.slots, traverse_slotsOf, List.zipIdx_singleton,
      Traced.traverse_singleton, bind_assoc, pure_bind]
    rfl

theorem OrderStep.lower_eq (s : OrderStep) :
    s.lower c = (ModulatedStep.order s).lowerParts c := by
  simp only [OrderStep.lower, ModulatedStep.lowerParts, ModulatedStep.fault?, ModulatedStep.slots,
    traverse_slotsOf, ModulatedStep.terminal, pure_bind, List.zipWith_map_left]
  rw [List.zipIdx_map, Traced.traverse_map]
  rfl

theorem GroupStep.lower_eq (s : GroupStep) :
    s.lower c = (ModulatedStep.group s).lowerParts c := by
  simp only [GroupStep.lower, ModulatedStep.lowerParts, ModulatedStep.fault?, ModulatedStep.slots,
    traverse_slotsOf, ModulatedStep.terminal, pure_bind, List.zipWith_map_left, bind_assoc]

namespace WherePredicateStep

/-- **The operands are the slots** as far as there are modulators. -/
theorem operands_eq (bys : List Traversal) (i number : Nat) (tags : List String) :
    operands c ⟨bys, c.config.policy, i⟩ number tags = do
      let resolved ← Traced.traverse c.fill (slotsFrom bys c.config.policy i number tags)
      if resolved.length < tags.length then c.fail (.modulatorsExhausted (i + resolved.length + 1))
      else return resolved := by
  induction tags generalizing i number with
  | nil => rfl
  | cons tag tags ih =>
    simp only [operands, operand, Modulators.next, slotsFrom]
    cases Modulators.at? bys c.config.policy i with
    | none => rfl
    | some t =>
      simp only [Traced.traverse_cons, Context.fill, Slot.extraction, if_true, bind_assoc,
        pure_bind, Slot.expr?, Slot.traversal]
      by_cases hsize : (t.rootedAt tag).extract.size = 1
      · simp only [Context.one_of_size hsize, pure_bind, ih, bind_assoc, List.length_cons,
          Nat.add_lt_add_iff_right]
        refine congrArg _ (funext fun r => congrArg _ (funext fun rs => ?_))
        split
        · rw [Context.fail_bind, Nat.add_right_comm i 1, Nat.add_assoc i rs.length]
        · rfl
      · simp only [Context.one_of_size_ne hsize, Context.fail_bind]

theorem lower_eq (s : WherePredicateStep) :
    s.lower c = (ModulatedStep.wherePredicate s).lowerParts c := by
  simp only [ModulatedStep.lowerParts, ModulatedStep.fault?, ModulatedStep.terminal,
    ModulatedStep.slots]
  by_cases hcount : s.predicate.leafCount = s.selectKeys.length
  · rw [lower_of_keyCount c hcount, Modulators.start, operands_eq, bind_assoc]
    simp only [hcount, ne_eq, not_true_eq_false, if_false, List.length_cons, List.length_map,
      Nat.zero_add]
    refine congrArg _ (funext fun resolved => ?_)
    split
    · rfl
    · rw [pure_bind, pure_bind]
  · simp only [lower, hcount, ne_eq, not_false_eq_true, if_true]

end WherePredicateStep

theorem Traversal.lowerFilter_eq (t : Traversal) (filter : String → String) (join : JoinKind) :
    t.lowerFilter c filter join = do
      let operator ← t.filterOperator c filter join
      return [operator] := by
  simp only [lowerFilter, filterOperator, bind_assoc]
  refine congrArg _ (funext fun e => ?_)
  cases e <;> simp

/-- **Every rule is its three parts.** -/
theorem ModulatedStep.lowerIn_eq (m : ModulatedStep) : m.lowerIn c = m.lowerParts c := by
  cases m with
  | select s => exact s.lower_eq c
  | dedup s => exact s.lower_eq c
  | sample s => exact s.lower_eq c
  | order s => exact s.lower_eq c
  | group s => exact s.lower_eq c
  | wherePredicate s => exact s.lower_eq c
  | whereTraversal t => exact t.lowerFilter_eq c _ _
  | not t => exact t.lowerFilter_eq c _ _

end Rules
end TraversalPlan

import TraversalPlan.Proofs.Expression.Operand
import TraversalPlan.Proofs.Lowering.Success
import TraversalPlan.Proofs.Predicate.Binding
import TraversalPlan.Traversal.Build

/-!
# The filter of a `where`

A `where` puts the expressions of its operands into the comparisons of its predicate as they are. The
filter says what the predicate says as long as each of them is a single operand. That is so for records,
properties and columns of plain names; a test with an operator of its own is taken apart by the
comparison around it (**`read_select`**).

* `Predicate.skeleton`: a predicate up to what it compares with; `skeleton_bind`, `operands_bind`:
  binding changes only that, and from left to right.
* `isOperand_column`: the column of a subquery is a single operand.
* `Operands.isOperand_or_isTest`: so is every operand but a test.
-/

namespace TraversalPlan

open TraversalPlan.Expr

/-! ## Binding -/

namespace Predicate

mutual

/-- The predicate without what it compares with. -/
def skeleton : Predicate → Predicate
  | compare op _ => compareTo op .null
  | all ps => all (skeletons ps)
  | any ps => any (skeletons ps)
  | not p => not (skeleton p)

def skeletons : List Predicate → List Predicate
  | [] => []
  | p :: ps => skeleton p :: skeletons ps

end

mutual

theorem skeleton_bind (p : Predicate) (es : List String) :
    (p.bind es).1.skeleton = p.skeleton := by
  match p, es with
  | compare op operand, [] => rfl
  | compare op operand, e :: es => rfl
  | not p, es => exact congrArg Predicate.not (skeleton_bind p es)
  | all ps, es => exact congrArg Predicate.all (skeletons_bindEach ps es)
  | any ps, es => exact congrArg Predicate.any (skeletons_bindEach ps es)

theorem skeletons_bindEach (ps : List Predicate) (es : List String) :
    skeletons (bindEach ps es).1 = skeletons ps := by
  match ps with
  | [] => rfl
  | p :: ps =>
    rw [bindEach_cons, skeletons, skeletons, skeleton_bind p es, skeletons_bindEach ps (p.bind es).2]

end

mutual

/-- The comparisons get one expression each, from left to right. -/
theorem operands_bind (p : Predicate) (es : List String) (h : p.leafCount ≤ es.length) :
    (p.bind es).1.operands = (es.take p.leafCount).map .expr := by
  match p, es with
  | compare op operand, [] => exact absurd h (by simp [leafCount])
  | compare op operand, e :: es => rfl
  | not p, es => exact operands_bind p es h
  | all ps, es => exact operandsOf_bindEach ps es h
  | any ps, es => exact operandsOf_bindEach ps es h

theorem operandsOf_bindEach (ps : List Predicate) (es : List String)
    (h : leafCounts ps ≤ es.length) :
    operandsOf (bindEach ps es).1 = (es.take (leafCounts ps)).map .expr := by
  match ps with
  | [] => rfl
  | p :: ps =>
    rw [leafCounts] at h
    have hrest : leafCounts ps ≤ (es.drop p.leafCount).length := by
      rw [List.length_drop]
      omega
    rw [bindEach_cons, operandsOf, leafCounts, bind_left, operands_bind p es (by omega),
      operandsOf_bindEach ps _ hrest, List.take_add, List.map_append]

end

theorem operands_bind_of_length {p : Predicate} {es : List String} (h : es.length = p.leafCount) :
    (p.bind es).1.operands = es.map .expr := by
  rw [operands_bind p es h.ge, ← h, List.take_length]

end Predicate

/-! ## Operands -/

/-- The name of a column without a tag begins with a tilde and a word, and numbers follow. -/
theorem isPlain_of_mem_allocateChars {k : Alias.Category} {p : Position} {i : UInt32} {x : Char}
    (h : x ∈ Alias.allocateChars k "" p i) : IsPlain x := by
  have hstem : ∀ y ∈ '~' :: k.stem, IsPlain y := by
    cases k <;> simp [Alias.Category.stem, IsPlain]
  have hnumber : ∀ j : UInt32, ∀ y ∈ Alias.componentChars j, IsPlain y := fun j =>
    List.forall_mem_cons.2 ⟨by decide, (IsNumeric.digits _).isPlain⟩
  rcases List.mem_append.1 h with h | h
  · rcases List.mem_append.1 h with h | h
    · exact hstem x h
    · cases h
  · obtain ⟨j, -, hx⟩ := List.mem_flatMap.1 h
    exact hnumber j x hx

/-- **The column of a subquery is a single operand.** -/
theorem isOperand_column (c : Context) (sub : Nat) :
    IsOperand (c.column .subquery "" sub).expr := by
  have htext : (c.column .subquery "" sub).expr = String.ofList
      ('@' :: Alias.allocateChars .subquery "" c.step.position (UInt32.ofNat sub)) := by
    rw [← String.toList_inj]
    simp [Alias.expr, Context.column, Alias.allocate]
  rw [htext]
  exact .of_plain fun x => isPlain_of_mem_allocateChars

theorem names_rootedAt (t : Traversal) (tag : String) : (t.rootedAt tag).names ⊆ tag :: t.names := by
  obtain ⟨steps⟩ := t
  unfold Traversal.rootedAt
  split
  · exact List.subset_cons_self _ _
  · exact fun x hx => hx

namespace WherePredicateStep

variable {c : Context}

/-- The modulator of an operand stands for a test of a record, and the operand is this test. -/
def IsTest (c : Context) (bys : List Traversal) (r : Resolved) : Prop :=
  ∃ i t tag tag' parts, Modulators.at? bys c.config.policy i = some t ∧
    (t.rootedAt tag).Denotes (.test tag' parts) ∧ r = ⟨none, Expr.conjoin parts⟩

/-- **Every operand but a test is a single operand** of the filter. -/
theorem Operands.isOperand_or_isTest {bys : List Traversal} {i sub : Nat} {tags : List String}
    {rs : List Resolved} (h : Operands c bys i sub tags rs)
    (htags : ∀ tag ∈ tags, IsPlainName tag)
    (hbys : ∀ name ∈ traversalsNames bys, IsPlainName name) :
    ∀ r ∈ rs, Negatable r.expression ∧ (IsOperand r.expression ∨ IsTest c bys r) := by
  induction h with
  | nil => exact fun r hr => absurd hr List.not_mem_nil
  | @cons i sub tag tags t r rs hmodulator _ hhead _ ih =>
    obtain ⟨htag, htags⟩ := List.forall_mem_cons.1 htags
    refine List.forall_mem_cons.2 ⟨?_, ih htags⟩
    have hnames : ∀ name ∈ (t.rootedAt tag).names, IsPlainName name := by
      intro name hname
      rcases List.mem_cons.1 (names_rootedAt t tag hname) with rfl | hname
      · exact htag
      rcases Modulators.eq_identity_or_mem hmodulator with rfl | hmem
      · cases hname
      · exact hbys name (names_subset_traversalsNames hmem hname)
    cases he : (t.rootedAt tag).extract.single? with
    | none =>
      rw [he] at hhead
      obtain ⟨plan, hplan⟩ := hhead
      have hoperand := isOperand_column c sub
      exact ⟨hoperand.negatable, .inl hoperand⟩
    | some e =>
      rw [he] at hhead
      obtain ⟨_⟩ := hhead
      obtain ⟨cursor, hdenotes, rfl⟩ := Traversal.exists_denotes_of_single? he
      have hplain := hdenotes.isPlain hnames
      refine ⟨hplain.negatable_expr, ?_⟩
      cases cursor with
      | value tag' property => exact .inl (Cursor.isOperand_value hplain)
      | test tag' parts => exact .inr ⟨i, t, tag, tag', parts, hmodulator, hdenotes, rfl⟩

theorem Operands.length_eq {bys : List Traversal} {i sub : Nat} {tags : List String}
    {rs : List Resolved} (h : Operands c bys i sub tags rs) : rs.length = tags.length := by
  induction h with
  | nil => rfl
  | cons _ _ _ _ ih => rw [List.length_cons, List.length_cons, ih]

theorem forall_names {s : WherePredicateStep} {P : String → Prop} (hempty : P "")
    (h : ∀ name ∈ (ModulatedStep.wherePredicate s).names, P name) :
    (∀ tag ∈ s.startTag :: s.selectKeys, P tag) ∧ ∀ name ∈ traversalsNames s.bys, P name := by
  obtain ⟨startKey, predicate, selectKeys, bys⟩ := s
  obtain ⟨htags, hbys⟩ := List.forall_mem_append.1 h
  obtain ⟨hstart, hselect⟩ := List.forall_mem_append.1 htags
  refine ⟨List.forall_mem_cons.2 ⟨?_, hselect⟩, hbys⟩
  cases startKey with
  | none => exact hempty
  | some tag => exact hstart tag List.mem_cons_self

/-- **The filter says what the predicate says** just if every operand that is compared is a single
operand, and only tests are not. -/
theorem read_select {s : WherePredicateStep} {ops : List Operator}
    (hnames : ∀ name ∈ (ModulatedStep.wherePredicate s).names, IsPlainName name)
    (h : (s.lower c).result = .ok ops) :
    ∃ (subject : Resolved) (keys : List Resolved) (bound : Predicate),
      Operands c s.bys 0 0 (s.startTag :: s.selectKeys) (subject :: keys) ∧
      bound.skeleton = s.predicate.skeleton ∧
      bound.operands = keys.map (fun r => .expr r.expression) ∧
      ops = Resolved.operators (subject :: keys) (.select (bound.flatten subject.expression)) ∧
      (Formula.read (bound.flatten subject.expression) = some (bound.formula subject.expression) ↔
        keys = [] ∨ ∀ r ∈ subject :: keys, IsOperand r.expression) ∧
      ∀ r ∈ subject :: keys, IsOperand r.expression ∨ IsTest c s.bys r := by
  obtain ⟨hcount, subject, keys, hoperands, rfl⟩ := lower_eq_ok.1 h
  obtain ⟨htags, hbys⟩ := forall_names (by decide) hnames
  have hall := hoperands.isOperand_or_isTest htags hbys
  have hlen : (keys.map Resolved.expression).length = s.predicate.leafCount := by
    rw [List.length_map, hcount]
    exact Nat.succ.inj hoperands.length_eq
  have hbound := Predicate.operands_bind_of_length hlen
  rw [List.map_map] at hbound
  refine ⟨subject, keys, _, hoperands, s.predicate.skeleton_bind _, hbound, rfl, ?_,
    fun r hr => (hall r hr).2⟩
  have hkeys : ∀ o ∈ (s.predicate.bind (keys.map Resolved.expression)).1.operands,
      Negatable o.text := by
    rw [hbound]
    exact List.forall_mem_map.2 fun r hr => (hall r (List.mem_cons_of_mem _ hr)).1
  rw [Predicate.read_iff (hall subject List.mem_cons_self).1 hkeys, hbound, List.forall_mem_map]
  -- the subject is compared only if there is a key
  cases keys with
  | nil => exact ⟨fun _ => .inl rfl, fun _ r hr => absurd hr List.not_mem_nil⟩
  | cons key keys =>
    constructor
    · intro hread
      refine .inr (List.forall_mem_cons.2 ⟨(hread key List.mem_cons_self).1, ?_⟩)
      exact fun r hr => (hread r hr).2
    · rintro (hnil | hread) r hr
      · cases hnil
      · exact ⟨hread subject List.mem_cons_self, hread r (List.mem_cons_of_mem _ hr)⟩

/-- Compares a property of two tagged records. -/
def compareAges : WherePredicateStep :=
  ⟨some "a", .compareTo .eq .null, ["b"], [Traversal.identity.values "age"]⟩

/-- Compares what a test says of two tagged records. -/
def compareTests : WherePredicateStep :=
  ⟨some "a", .compareTo .eq .null, ["b"],
    [Traversal.identity.has "name" (.string "marko")]⟩

/-- The first step of a query, with subqueries that are not looked at. -/
def whereContext : Context := ⟨Builder.unused, .standard, ⟨"where", Position.root.child 0⟩⟩

theorem read_select_compareAges :
    (compareAges.lower whereContext).result = .ok [.select "@a.age == @b.age"] ∧
      ∃ (subject : Resolved) (keys : List Resolved) (bound : Predicate),
        Operands whereContext compareAges.bys 0 0 ["a", "b"] (subject :: keys) ∧
        bound.operands = keys.map (fun r => .expr r.expression) ∧
        ∀ r ∈ subject :: keys, IsOperand r.expression ∨ IsTest whereContext compareAges.bys r := by
  have hnames : ∀ name ∈ (ModulatedStep.wherePredicate compareAges).names,
      IsPlainName name := by decide
  have hlower : (compareAges.lower whereContext).result =
      .ok [.select "@a.age == @b.age"] := by cbv
  obtain ⟨subject, keys, bound, hoperands, -, hbound, -, -, htests⟩ := read_select hnames hlower
  exact ⟨hlower, subject, keys, bound, hoperands, hbound, htests⟩

theorem test_taken_apart :
    (∀ name ∈ (ModulatedStep.wherePredicate compareTests).names, IsPlainName name) ∧
      (compareTests.lower whereContext).result =
        .ok [.select "@a.name == \"marko\" == @b.name == \"marko\""] ∧
      Formula.read "@a.name == \"marko\" == @b.name == \"marko\"" = none := by
  refine ⟨by decide, by cbv, ?_⟩
  decide +kernel

end WherePredicateStep

end TraversalPlan

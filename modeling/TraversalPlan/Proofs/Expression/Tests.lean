import TraversalPlan.Proofs.Expression.Operand

/-!
# Reading pure expressions

Where tags and property keys are plain names, the expression of a pure traversal reads as a formula. A
record or a property stands for a truth value by itself. Tests are joined by `&&`, and the ones that
are marked as compound are just those that need parentheses there
(**`Traversal.exists_read_of_single?`**).

* `Expr.IsPart`: a test with its mark has the words of a formula.
* `Expr.exists_spells_conjoin`: so has their conjunction.
* `Cursor.exists_isPart_testsOf`, `Cursor.exists_isPart_testsAlong`: the tests of one move and of all.
-/

namespace TraversalPlan

open TraversalPlan.Expr

/-! ## Conjunctions of tests -/

namespace Expr

/-- The text has the words of a formula, and is marked if the formula is a connective. -/
structure IsPart (part : String × Bool) (f : Formula) : Prop where
  spells : Spells part.1 f.trees
  regular : f.Regular
  marked : f.isConnective = part.2

theorem IsPart.enclose {part : String × Bool} {f : Formula} (h : IsPart part f) :
    Spells (group part.1 part.2) (f.enclose f.trees) := by
  rw [← h.marked]
  exact h.spells.enclose

/-- **A conjunction of tests has the words of the conjunction of their formulas.** -/
theorem exists_spells_conjoin {parts : List (String × Bool)} (hne : parts ≠ [])
    (h : ∀ part ∈ parts, ∃ f, IsPart part f) :
    ∃ f : Formula, Spells (conjoin parts) f.trees ∧ f.Regular := by
  match parts with
  | [] => exact absurd rfl hne
  | [part] =>
    obtain ⟨f, hf⟩ := h part List.mem_cons_self
    exact ⟨f, hf.spells, hf.regular⟩
  | part :: next :: parts =>
    have : Nonempty Formula := ⟨.const true⟩
    choose! formulaOf hparts using h
    let fs := (part :: next :: parts).map formulaOf
    have hspells : List.Forall₂ (fun e f => Spells e (Formula.enclose f f.trees))
        ((part :: next :: parts).map fun x => group x.1 x.2) fs := by
      rw [List.forall₂_map_left_iff, List.forall₂_map_right_iff, List.forall₂_same]
      exact fun x hx => (hparts x hx).enclose
    have hregular : ∀ f ∈ fs, f.Regular :=
      List.forall_mem_map.2 fun x hx => (hparts x hx).regular
    refine ⟨.all fs, ?_, .joined .and hregular⟩
    exact .intercalate .and hspells (List.cons_ne_nil _ _)

theorem ofWord_subject (tag : String) (property : Option String) :
    Formula.ofWord (subject tag property) = .lone (subject tag property) := by
  have hhead : (subject tag property).toList.head? = some '@' := by
    cases property <;> simp [subject]
  have hne : ∀ e : String, e.toList.head? ≠ some '@' → subject tag property ≠ e := by
    rintro e he rfl
    exact he hhead
  rw [Formula.ofWord, if_neg (hne "true" (by decide)), if_neg (hne "false" (by decide))]

end Expr

theorem Predicate.isPart_flatten {s : String} (hs : IsOperand s) (p : Predicate)
    (hp : ∀ o ∈ p.operands, IsOperand o.text) : IsPart (p.flatten s, p.isCompound) (p.formula s) :=
  ⟨p.spells_flatten fun o ho => ⟨hs, hp o ho⟩, p.regular_formula s, p.isConnective_formula s⟩

/-! ## Tests of plain names -/

section Tests

variable {tag key : String}

theorem isOperand_property (htag : IsPlainName tag) (hkey : IsPlainName key) :
    IsOperand (subject tag (some key)) := by
  have hplain : (Cursor.value tag (some key)).IsPlain := by
    refine ⟨htag, fun p hp => ?_⟩
    obtain rfl := Option.some.inj hp
    exact hkey
  exact Cursor.isOperand_value hplain

theorem isPart_compareTo {s : String} (hs : IsOperand s) (op : CompareOp) (v : Value) :
    IsPart ((Predicate.compareTo op v).flatten s, false) ((Predicate.compareTo op v).formula s) :=
  Predicate.isPart_flatten hs (.compareTo op v)
    (List.forall_mem_singleton.2 (Value.isOperand_text v))

theorem exists_isPart_labelTest (htag : IsPlainName tag) (labels : List String) :
    ∃ f, IsPart (labelTest tag labels) f := by
  have hsubject : IsOperand (subject tag (some labelProperty)) :=
    isOperand_property htag (by decide)
  unfold labelTest
  split
  · exact ⟨_, isPart_compareTo hsubject _ _⟩
  · exact ⟨_, isPart_compareTo hsubject _ _⟩

theorem HasTest.exists_isPart (htag : IsPlainName tag) {t : HasTest}
    (hnames : ∀ name ∈ t.names, IsPlainName name) (hoperands : ∀ o ∈ t.operands, IsOperand o.text) :
    ∀ part ∈ t.parts tag, ∃ f, IsPart part f := by
  cases t with
  | key k =>
    have hsubject := isOperand_property htag (hnames k List.mem_cons_self)
    refine List.forall_mem_singleton.2 ⟨.lone (subject tag (some k)), ?_⟩
    exact ⟨.operand hsubject, .lone (ofWord_subject tag _), rfl⟩
  | keyValue k v =>
    have hsubject := isOperand_property htag (hnames k List.mem_cons_self)
    exact List.forall_mem_singleton.2 ⟨_, isPart_compareTo hsubject _ v⟩
  | keyPredicate k p =>
    have hsubject := isOperand_property htag (hnames k List.mem_cons_self)
    exact List.forall_mem_singleton.2 ⟨_, p.isPart_flatten hsubject hoperands⟩
  | labelKeyValue l k v =>
    have hsubject := isOperand_property htag (hnames k List.mem_cons_self)
    refine List.forall_mem_cons.2 ⟨exists_isPart_labelTest htag [l], ?_⟩
    exact List.forall_mem_singleton.2 ⟨_, isPart_compareTo hsubject _ v⟩

end Tests

/-! ## Tests along a chain -/

namespace Cursor

variable {c d : Cursor}

theorem IsPlain.tag (h : c.IsPlain) : IsPlainName c.tag := by
  cases c <;> exact h.1

/-- **The tests that a move adds are tests.** -/
theorem exists_isPart_testsOf {m : Move} (hc : c.IsPlain)
    (hnames : ∀ name ∈ m.names, IsPlainName name)
    (hoperands : ∀ o ∈ m.operands, IsOperand o.text) :
    ∀ part ∈ c.testsOf m, ∃ f, IsPart part f := by
  have hnone : c.testsOf m = [] → ∀ part ∈ c.testsOf m, ∃ f, IsPart part f := by
    intro h part hpart
    rw [h] at hpart
    cases hpart
  cases m with
  | restart tag => exact hnone (by cases c <;> rfl)
  | step s =>
    cases s with
    | has t => exact t.exists_isPart hc.tag hnames hoperands
    | hasLabel labels =>
      cases labels with
      | nil => exact hnone (by cases c <;> rfl)
      | cons l labels =>
        exact List.forall_mem_singleton.2 (exists_isPart_labelTest hc.tag (l :: labels))
    | is p =>
      cases c with
      | value tag property =>
        have hpart := p.isPart_flatten (isOperand_value hc) hoperands
        exact List.forall_mem_singleton.2 ⟨_, hpart⟩
      | test tag parts => exact hnone rfl
    | _ => exact hnone (by cases c <;> rfl)

theorem exists_isPart_testsAlong {ms : List Move} (hc : c.IsPlain)
    (hms : ∀ m ∈ ms, (∀ name ∈ m.names, IsPlainName name) ∧ ∀ o ∈ m.operands, IsOperand o.text) :
    ∀ part ∈ c.testsAlong ms, ∃ f, IsPart part f := by
  induction ms generalizing c with
  | nil => exact fun part hpart => absurd hpart List.not_mem_nil
  | cons m ms ih =>
    obtain ⟨⟨hnames, hoperands⟩, hrest⟩ := List.forall_mem_cons.1 hms
    rw [testsAlong]
    cases hmove : c.move? m with
    | none => exact fun part hpart => absurd hpart List.not_mem_nil
    | some d =>
      have hrun : c.run? [m] = some d := by rw [run?, hmove, Option.bind_some, run?]
      have hd : d.IsPlain := isPlain_of_run? hc (List.forall_mem_singleton.2 hnames) hrun
      exact List.forall_mem_append.2 ⟨exists_isPart_testsOf hc hnames hoperands, ih hd hrest⟩

/-- **What a cursor of plain names stands for has the words of a formula.** -/
theorem exists_spells_expr (hc : c.IsPlain) (htests : ∀ part ∈ c.tests, ∃ f, IsPart part f) :
    ∃ f : Formula, Spells c.expr f.trees ∧ f.Regular := by
  cases c with
  | value tag property =>
    exact ⟨.lone _, .operand (isOperand_value hc), .lone (ofWord_subject tag property)⟩
  | test tag parts => exact exists_spells_conjoin hc.2.1 htests

end Cursor

/-! ## Extracted expressions -/

/-- **The expression of a pure traversal of plain names reads as a formula**, and can be negated. What
its filters compare with may be any literal, or a text that is an operand. -/
theorem Traversal.exists_read_of_single? {t : Traversal} {e : String}
    (hnames : ∀ name ∈ t.names, IsPlainName name)
    (hoperands : ∀ e, .expr e ∈ t.operands → IsOperand e) (h : t.extract.single? = some e) :
    ∃ f, Formula.read e = some f := by
  obtain ⟨c, hdenotes, rfl⟩ := exists_denotes_of_single? h
  obtain ⟨tag, ms, hrun, htag, hms⟩ := hdenotes.exists_moves
  have htext : ∀ o ∈ t.operands, IsOperand o.text := by
    intro o ho
    cases o with
    | literal v => exact Value.isOperand_text v
    | expr e => exact hoperands e ho
  have hstart : (Cursor.ofTag tag).IsPlain := by
    refine Cursor.isPlain_ofTag ?_
    rcases htag with rfl | htag
    · decide
    · exact hnames tag htag
  have halong : ∀ part ∈ (Cursor.ofTag tag).testsAlong ms, ∃ f, IsPart part f := by
    refine Cursor.exists_isPart_testsAlong hstart fun m hm => ⟨fun name hname => ?_, fun o ho => ?_⟩
    · exact hnames name ((hms m hm).1 hname)
    · exact htext o ((hms m hm).2 ho)
  have hsuffix : c.tests <:+ (Cursor.ofTag tag).testsAlong ms := Cursor.tests_suffix hrun rfl
  obtain ⟨f, hspells, hregular⟩ := Cursor.exists_spells_expr (hdenotes.isPlain hnames)
    fun part hpart => halong part (hsuffix.subset hpart)
  exact ⟨f, hspells.read hregular⟩

end TraversalPlan

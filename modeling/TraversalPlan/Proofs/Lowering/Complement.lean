import TraversalPlan.Proofs.Expression.Negation
import TraversalPlan.Proofs.Expression.Tests
import TraversalPlan.Proofs.Lowering.Depth
import TraversalPlan.Traversal.Build

/-!
# Filters that are complements

A `where` keeps the records for which a traversal yields something and a `not` keeps the others. They
are lowered alike: either both fail, or both run the same subquery, or both test an expression, which
the second negates as a whole (**`lower_where_not`**).

* `Traversal.result_lowerFilter`: what a filter by a traversal comes to.
* `Traversal.read_negate_of_single?`: how the negation of a pure expression is read.
-/

namespace TraversalPlan

open TraversalPlan.Expr

/-- A filter by a traversal fails unless the traversal has one entry. Then it is a test of the
expression if there is one, and a subquery otherwise. -/
theorem Traversal.result_lowerFilter (t : Traversal) (c : Context) (filter : String → String)
    (join : JoinKind) :
    (t.lowerFilter c filter join).result =
      if t.extract.size = 1 then
        match t.extract.single? with
        | some e => .ok [.select (filter e)]
        | none => (c.build t (c.step.position.child 0)).result.map fun plan =>
          [.apply plan.operators join none]
      else .error ⟨c.step, .notOneExpression t.extract.size⟩ := by
  unfold lowerFilter
  by_cases hsize : t.extract.size = 1
  · rw [Context.one_of_size hsize, pure_bind, if_pos hsize]
    cases t.extract.single? with
    | some e => rfl
    | none =>
      simp only [Context.existence, Traced.result_bind, Traced.result_emit]
      cases (c.build t (c.step.position.child 0)).result <;> rfl
  · rw [Context.one_of_size_ne hsize, if_neg hsize, Context.fail_bind, Context.result_fail]

/-- **Whatever the expression of a pure traversal reads as, its negation reads as the negation of
that**, and it reads as a formula if what it compares with are literals. -/
theorem Traversal.read_negate_of_single? {t : Traversal} {e : String}
    (h : t.extract.single? = some e) (hnames : ∀ name ∈ t.names, IsPlainName name) :
    (∀ f, Formula.read e = some f → Formula.read (Expr.negate e) = some (.not f)) ∧
      ((∀ e, .expr e ∈ t.operands → IsOperand e) → ∃ f, Formula.read e = some f) := by
  obtain ⟨c, hdenotes, rfl⟩ := exists_denotes_of_single? h
  have hnegatable : Negatable c.expr := (hdenotes.isPlain hnames).negatable_expr
  refine ⟨fun f => Formula.read_negate hnegatable, fun hoperands => ?_⟩
  exact exists_read_of_single? hnames hoperands h

namespace ModulatedStep

/-- **`where` and `not` are complements.** Both fail with the same fault, or both ask whether the same
subquery yields anything, or both test an expression. If names are plain, the second expression then
reads as the negation of the first, which reads as a formula if what it compares with are literals: of
any record just one of the filters holds. -/
theorem lower_where_not (config : Config) (t : Traversal) (position : Position) :
    let kept := ((whereTraversal t).lower config position).result
    let dropped := ((not t).lower config position).result
    (∃ fault, kept = .error ⟨⟨"where", position⟩, fault⟩ ∧
      dropped = .error ⟨⟨"not", position⟩, fault⟩) ∨
    (∃ e, kept = .error e ∧ dropped = .error e) ∨
    (∃ plan, (t.build config (position.child 0)).result = .ok plan ∧
      kept = .ok [.apply plan.operators .semi none] ∧
      dropped = .ok [.apply plan.operators .anti none]) ∨
    ∃ e e', kept = .ok [.select e] ∧ dropped = .ok [.select e'] ∧
      ((∀ name ∈ t.names, IsPlainName name) →
        (∀ f, Formula.read e = some f → Formula.read e' = some (.not f) ∧
          ∀ v, (Formula.not f).holds v = !f.holds v) ∧
        ((∀ o, .expr o ∈ t.operands → IsOperand o) → ∃ f, Formula.read e = some f)) := by
  intro kept dropped
  let build : Builder := fun t scope => t.build config scope
  have hkept : kept = (t.lowerFilter ⟨build, config, ⟨"where", position⟩⟩ (fun e => e) .semi).result :=
    congrArg Traced.result (lower_eq config (whereTraversal t) position)
  have hdropped :
      dropped = (t.lowerFilter ⟨build, config, ⟨"not", position⟩⟩ Expr.negate .anti).result :=
    congrArg Traced.result (lower_eq config (not t) position)
  rw [hkept, hdropped, Traversal.result_lowerFilter, Traversal.result_lowerFilter]
  by_cases hsize : t.extract.size = 1
  · rw [if_pos hsize, if_pos hsize]
    cases hpure : t.extract.single? with
    | some e =>
      refine .inr (.inr (.inr ⟨e, Expr.negate e, rfl, rfl, fun hnames => ?_⟩))
      obtain ⟨hnegation, hreads⟩ := Traversal.read_negate_of_single? hpure hnames
      exact ⟨fun f hf => ⟨hnegation f hf, fun v => rfl⟩, hreads⟩
    | none =>
      dsimp only [build]
      cases (t.build config (position.child 0)).result with
      | error e => exact .inr (.inl ⟨e, rfl, rfl⟩)
      | ok plan => exact .inr (.inr (.inl ⟨plan, rfl, rfl, rfl⟩))
  · rw [if_neg hsize, if_neg hsize]
    exact .inl ⟨_, rfl, rfl⟩

/-- Two tests, of which one has a literal that looks like a conjunction. -/
def likeConjunction : Traversal :=
  (Traversal.identity.has "name" (.string "x && y")).hasWhere "known" (.not (.eq (.bool true)))

theorem lower_where_not_likeConjunction :
    ((∀ name ∈ likeConjunction.names, IsPlainName name) ∧
      ∀ o, .expr o ∈ likeConjunction.operands → IsOperand o) ∧
    let e := "@.name == \"x && y\" && !@.known == true"
    let e' := "!(@.name == \"x && y\" && !@.known == true)"
    ((whereTraversal likeConjunction).lower .standard .root).result = .ok [.select e] ∧
      ((not likeConjunction).lower .standard .root).result = .ok [.select e'] ∧
      ∃ f, Formula.read e = some f ∧ Formula.read e' = some (.not f) := by
  have hnames : ∀ name ∈ likeConjunction.names, IsPlainName name := by decide
  have hliterals : likeConjunction.operands = [.literal (.bool true)] := by cbv
  have hoperands : ∀ o, .expr o ∈ likeConjunction.operands → IsOperand o := by
    intro o ho
    rw [hliterals] at ho
    cases List.mem_singleton.1 ho
  have hkept : ((whereTraversal likeConjunction).lower .standard .root).result =
      .ok [.select "@.name == \"x && y\" && !@.known == true"] := by cbv
  have hdropped : ((not likeConjunction).lower .standard .root).result =
      .ok [.select "!(@.name == \"x && y\" && !@.known == true)"] := by cbv
  refine ⟨⟨hnames, hoperands⟩, hkept, hdropped, ?_⟩
  rcases lower_where_not .standard likeConjunction .root with
    ⟨fault, h, -⟩ | ⟨e, h, -⟩ | ⟨plan, -, h, -⟩ | ⟨e, e', he, he', hread⟩
  · cases hkept.symm.trans h
  · cases hkept.symm.trans h
  · cases hkept.symm.trans h
  · cases hkept.symm.trans he
    cases hdropped.symm.trans he'
    obtain ⟨hnegation, f, hf⟩ := (hread hnames).imp_right fun hexists => hexists hoperands
    exact ⟨f, hf, (hnegation f hf).1⟩

end ModulatedStep
end TraversalPlan

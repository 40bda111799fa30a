import TraversalPlan.Lowering.Where
import TraversalPlan.Proofs.Predicate.Binding

/-!
# Operands in a row

A `where` resolves its operands on the way through its predicate. The connectives do not matter to
that: the start record and the records of the select keys can be resolved in a row, and the predicate
takes what they come to from left to right (**`WherePredicateStep.lower_of_keyCount`**). No comparison
is without a select key then.

* `WherePredicateStep.operands`, `WherePredicateStep.operandsAndRest`: the records of tags in a row.
* `Predicate.bind_append`: a predicate takes no more than it has comparisons.
* `OperandBinder.bind_eq`: going through a predicate is resolving its operands and binding them.
-/

namespace TraversalPlan

/-- What follows matters only for the outcome that there is. -/
theorem Traced.bind_congr {ε α β : Type} {x : Traced ε α} {f g : α → Traced ε β}
    (h : ∀ a, x.result = .ok a → f a = g a) : x >>= f = x >>= g := by
  cases hx : x.result with
  | error e => rw [bind_of_error hx, bind_of_error hx]
  | ok a => rw [bind_of_ok hx, bind_of_ok hx, h a hx]

theorem exists_append_of_length_eq_add {α : Type} {l : List α} {m n : Nat} (h : l.length = m + n) :
    ∃ front back, l = front ++ back ∧ front.length = m ∧ back.length = n := by
  refine ⟨l.take m, l.drop m, (List.take_append_drop m l).symm, ?_, ?_⟩
  · rw [List.length_take_of_le (by omega)]
  · rw [List.length_drop]
    omega

/-! ## Records in a row -/

namespace WherePredicateStep

/-- Resolves the records of tags in order. -/
def operands (c : Context) : Modulators → Nat → List String → Lowering (List Resolved)
  | _, _, [] => pure []
  | m, sub, tag :: tags => do
    let (r, m, sub) ← operand c m sub tag
    let rs ← operands c m sub tags
    return r :: rs

/-- The same with what is left for the operands after them. -/
def operandsAndRest (c : Context) :
    Modulators → Nat → List String → Lowering (List Resolved × Modulators × Nat)
  | m, sub, [] => pure ([], m, sub)
  | m, sub, tag :: tags => do
    let (r, m, sub) ← operand c m sub tag
    let (rs, m, sub) ← operandsAndRest c m sub tags
    return (r :: rs, m, sub)

variable (c : Context) (m : Modulators) (sub : Nat)

theorem operands_eq_fst (tags : List String) : operands c m sub tags = do
    let (rs, _) ← operandsAndRest c m sub tags
    return rs := by
  induction tags generalizing m sub with
  | nil => rfl
  | cons tag tags ih => simp only [operands, operandsAndRest, ih, bind_assoc, pure_bind]

theorem operandsAndRest_append (tags tags' : List String) :
    operandsAndRest c m sub (tags ++ tags') = do
      let (rs, m, sub) ← operandsAndRest c m sub tags
      let (rs', m, sub) ← operandsAndRest c m sub tags'
      return (rs ++ rs', m, sub) := by
  induction tags generalizing m sub with
  | nil => simp [operandsAndRest]
  | cons tag tags ih =>
    simp only [List.cons_append, operandsAndRest, ih, bind_assoc, pure_bind]

theorem length_of_operandsAndRest {m : Modulators} {sub : Nat} {tags : List String}
    {rs : List Resolved} {rest : Modulators × Nat}
    (h : (operandsAndRest c m sub tags).result = .ok (rs, rest)) : rs.length = tags.length := by
  induction tags generalizing m sub rs with
  | nil =>
    obtain ⟨rfl, -⟩ := Prod.mk.inj (Except.ok.inj h)
    rfl
  | cons tag tags ih =>
    obtain ⟨⟨r, m, sub⟩, -, h⟩ := Traced.result_bind_eq_ok.1 h
    obtain ⟨⟨rs', rest'⟩, hrest, h⟩ := Traced.result_bind_eq_ok.1 h
    obtain ⟨rfl, rfl⟩ := Prod.mk.inj (Except.ok.inj h)
    rw [List.length_cons, List.length_cons, ih hrest]

end WherePredicateStep

/-! ## Binding in a row -/

namespace Predicate

mutual

/-- Expressions after those for the comparisons are left over. -/
theorem bind_append (p : Predicate) (es es' : List String) (h : es.length = p.leafCount) :
    p.bind (es ++ es') = ((p.bind es).1, es') := by
  match p with
  | compare op operand =>
    obtain ⟨e, rfl⟩ := List.length_eq_one_iff.1 h
    rfl
  | not p => simp only [bind, bind_append p es es' h]
  | all ps => simp only [bind, bindEach_append ps es es' h]
  | any ps => simp only [bind, bindEach_append ps es es' h]

theorem bindEach_append (ps : List Predicate) (es es' : List String)
    (h : es.length = leafCounts ps) : bindEach ps (es ++ es') = ((bindEach ps es).1, es') := by
  match ps with
  | [] =>
    obtain rfl := List.eq_nil_of_length_eq_zero h
    rfl
  | p :: ps =>
    obtain ⟨front, back, rfl, hfront, hback⟩ := exists_append_of_length_eq_add h
    rw [List.append_assoc, bindEach_cons, bindEach_cons, bind_append p _ _ hfront,
      bind_append p _ _ hfront, bindEach_append ps _ _ hback]

end

end Predicate

namespace OperandBinder

variable (c : Context)

mutual

/-- **Going through a predicate is resolving its operands in a row** and binding them. -/
theorem bind_eq (p : Predicate) (m : Modulators) (keys rest : List String) (sub : Nat)
    (ops : List Operator) (h : keys.length = p.leafCount) :
    bind c p ⟨m, keys ++ rest, sub, ops⟩ = do
      let (rs, m, sub) ← WherePredicateStep.operandsAndRest c m sub keys
      return ((p.bind (rs.map Resolved.expression)).1,
        ⟨m, rest, sub, ops ++ rs.filterMap Resolved.subquery⟩) := by
  match p with
  | .compare op operand =>
    obtain ⟨key, rfl⟩ := List.length_eq_one_iff.1 h
    simp only [bind, OperandBinder.operand, WherePredicateStep.operandsAndRest, bind_assoc,
      pure_bind, List.cons_append, List.nil_append]
    refine congrArg _ (funext fun ⟨⟨subquery, e⟩, m, sub⟩ => ?_)
    cases subquery <;> rfl
  | .not p =>
    simp only [bind, bind_eq p m keys rest sub ops h, bind_assoc, pure_bind, Predicate.bind]
  | .all ps =>
    simp only [bind, bindEach_eq ps m keys rest sub ops h, bind_assoc, pure_bind, Predicate.bind]
  | .any ps =>
    simp only [bind, bindEach_eq ps m keys rest sub ops h, bind_assoc, pure_bind, Predicate.bind]

theorem bindEach_eq (ps : List Predicate) (m : Modulators) (keys rest : List String) (sub : Nat)
    (ops : List Operator) (h : keys.length = Predicate.leafCounts ps) :
    bindEach c ps ⟨m, keys ++ rest, sub, ops⟩ = do
      let (rs, m, sub) ← WherePredicateStep.operandsAndRest c m sub keys
      return ((Predicate.bindEach ps (rs.map Resolved.expression)).1,
        ⟨m, rest, sub, ops ++ rs.filterMap Resolved.subquery⟩) := by
  match ps with
  | [] =>
    obtain rfl := List.eq_nil_of_length_eq_zero h
    simp [bindEach, WherePredicateStep.operandsAndRest, Predicate.bindEach]
  | p :: ps =>
    obtain ⟨front, back, rfl, hfront, hback⟩ := exists_append_of_length_eq_add h
    rw [List.append_assoc, bindEach, bind_eq p m front (back ++ rest) sub ops hfront,
      WherePredicateStep.operandsAndRest_append, bind_assoc, bind_assoc]
    refine Traced.bind_congr fun ⟨rs, m, sub⟩ hrs => ?_
    have hlength : (rs.map Resolved.expression).length = p.leafCount := by
      rw [List.length_map, WherePredicateStep.length_of_operandsAndRest c hrs, hfront]
    simp only [pure_bind, bind_assoc, bindEach_eq ps m back rest sub _ hback, List.map_append,
      Predicate.bindEach_cons, Predicate.bind_append p _ _ hlength, List.filterMap_append,
      List.append_assoc]

end

end OperandBinder

/-! ## Filters -/

/-- **The operands of a `where` are resolved in a row**, if there is a select key for each
comparison. The start record is the first of them. -/
theorem WherePredicateStep.lower_of_keyCount (c : Context) {s : WherePredicateStep}
    (hcount : s.predicate.leafCount = s.selectKeys.length) :
    s.lower c = do
      let resolved ← operands c (.start s.bys c.config.policy) 0 (s.startTag :: s.selectKeys)
      let es := resolved.map Resolved.expression
      return Resolved.operators resolved
        (.select ((s.predicate.bind es.tail).1.flatten (es.headD ""))) := by
  have hbind : ∀ m sub ops, OperandBinder.bind c s.predicate ⟨m, s.selectKeys, sub, ops⟩ = do
      let (rs, m, sub) ← operandsAndRest c m sub s.selectKeys
      return ((s.predicate.bind (rs.map Resolved.expression)).1,
        ⟨m, [], sub, ops ++ rs.filterMap Resolved.subquery⟩) := by
    intro m sub ops
    have heq := OperandBinder.bind_eq c s.predicate m s.selectKeys [] sub ops hcount.symm
    rwa [List.append_nil] at heq
  simp only [lower, hcount, ne_eq, not_true_eq_false, if_false, OperandBinder.operand, hbind,
    operands_eq_fst, operandsAndRest, bind_assoc, pure_bind]
  refine congrArg _ (funext fun ⟨⟨subquery, e⟩, m, sub⟩ => ?_)
  refine congrArg _ (funext fun ⟨rs, m, sub⟩ => ?_)
  cases subquery <;> rfl

end TraversalPlan

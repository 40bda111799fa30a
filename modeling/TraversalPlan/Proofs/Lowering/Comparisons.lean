import Mathlib.Data.Nat.Count
import TraversalPlan.Proofs.Lowering.Output
import TraversalPlan.Proofs.Lowering.WhereReading

/-!
# Which operand goes to which comparison

A `where` numbers its operands: the start record is operand zero, and the record of a select key comes
right after that of the key before. Each has the modulator with its number. The comparisons of the
predicate take the operands of the select keys from left to right, whatever connectives they stand
under, and what they were compared with before does not matter. Operands that need a subquery are
numbered in the same order, without gaps (**`WherePredicateStep.comparisons_of_lower`**).

* `Predicate.withOperands`: a predicate with new operands, given by the number of the comparison.
* `Predicate.bind_eq_withOperands`: binding operands from left to right is that.
* `Modulators.Hands`: which modulator a policy hands to the operand with a number.
* `WherePredicateStep.operandAt`, `WherePredicateStep.numberAt`, `WherePredicateStep.expressionAt`: the
  operand with a number, the number of its subquery, and what stands for it.
-/

namespace TraversalPlan

/-! ## Predicates -/

namespace Predicate

mutual

/-- The predicate with new operands, of which the first comparison takes that with a given number, and
each further one the next. -/
def withOperands (f : Nat → Operand) : Nat → Predicate → Predicate
  | i, compare op _ => compare op (f i)
  | i, all ps => all (eachWithOperands f i ps)
  | i, any ps => any (eachWithOperands f i ps)
  | i, not p => not (withOperands f i p)

def eachWithOperands (f : Nat → Operand) : Nat → List Predicate → List Predicate
  | _, [] => []
  | i, p :: ps => withOperands f i p :: eachWithOperands f (i + p.leafCount) ps

end

section

variable {f : Nat → String}

mutual

/-- **Binding gives the comparisons their operands by number.** -/
theorem bind_eq_withOperands (p : Predicate) (i : Nat) (es : List String)
    (hlen : p.leafCount ≤ es.length) (h : ∀ j < p.leafCount, es[j]? = some (f (i + j))) :
    (p.bind es).1 = p.withOperands (fun j => .expr (f j)) i := by
  match p, es with
  | compare op operand, [] => exact absurd hlen (by simp [leafCount])
  | compare op operand, e :: es =>
    obtain rfl : e = f i := Option.some.inj (h 0 Nat.one_pos)
    rfl
  | not p, es => exact congrArg Predicate.not (bind_eq_withOperands p i es hlen h)
  | all ps, es => exact congrArg Predicate.all (bindEach_eq_withOperands ps i es hlen h)
  | any ps, es => exact congrArg Predicate.any (bindEach_eq_withOperands ps i es hlen h)

theorem bindEach_eq_withOperands (ps : List Predicate) (i : Nat) (es : List String)
    (hlen : leafCounts ps ≤ es.length) (h : ∀ j < leafCounts ps, es[j]? = some (f (i + j))) :
    (bindEach ps es).1 = eachWithOperands (fun j => .expr (f j)) i ps := by
  match ps with
  | [] => rfl
  | p :: ps =>
    rw [leafCounts] at hlen h
    have hfirst : p.leafCount ≤ es.length := by omega
    have hrest : leafCounts ps ≤ (es.drop p.leafCount).length := by
      rw [List.length_drop]
      omega
    -- the children after the first take what it leaves
    rw [bindEach_cons, eachWithOperands, bind_left,
      bind_eq_withOperands p i es hfirst fun j hj => h j (by omega),
      bindEach_eq_withOperands ps (i + p.leafCount) _ hrest fun j hj => ?_]
    rw [List.getElem?_drop, h _ (by omega), Nat.add_assoc]

end

mutual

theorem leafCount_skeleton (p : Predicate) : p.skeleton.leafCount = p.leafCount := by
  match p with
  | compare op operand => rfl
  | not p => exact leafCount_skeleton p
  | all ps => exact leafCounts_skeletons ps
  | any ps => exact leafCounts_skeletons ps

theorem leafCounts_skeletons (ps : List Predicate) : leafCounts (skeletons ps) = leafCounts ps := by
  match ps with
  | [] => rfl
  | p :: ps => rw [skeletons, leafCounts, leafCounts, leafCount_skeleton p, leafCounts_skeletons ps]

end

mutual

theorem withOperands_skeleton (g : Nat → Operand) (i : Nat) (p : Predicate) :
    p.skeleton.withOperands g i = p.withOperands g i := by
  match p with
  | compare op operand => rfl
  | not p => exact congrArg Predicate.not (withOperands_skeleton g i p)
  | all ps => exact congrArg Predicate.all (eachWithOperands_skeletons g i ps)
  | any ps => exact congrArg Predicate.any (eachWithOperands_skeletons g i ps)

theorem eachWithOperands_skeletons (g : Nat → Operand) (i : Nat) (ps : List Predicate) :
    eachWithOperands g i (skeletons ps) = eachWithOperands g i ps := by
  match ps with
  | [] => rfl
  | p :: ps =>
    rw [skeletons, eachWithOperands, eachWithOperands, withOperands_skeleton g i p,
      leafCount_skeleton, eachWithOperands_skeletons g _ ps]

end

/-- **What is bound depends only on the connectives and operators**, if no expression is missing. -/
theorem bind_of_skeleton {p q : Predicate} (h : p.skeleton = q.skeleton) {es : List String}
    (hlen : q.leafCount ≤ es.length) : (p.bind es).1 = (q.bind es).1 := by
  have hcount : p.leafCount = q.leafCount := by
    rw [← leafCount_skeleton p, h, leafCount_skeleton]
  have hbind : ∀ r : Predicate, r.leafCount ≤ es.length →
      (r.bind es).1 = r.withOperands (fun j => .expr (es.getD j "")) 0 := fun r hr =>
    bind_eq_withOperands r 0 es hr fun j hj => by
      rw [Nat.zero_add, List.getD_eq_getElem?_getD, List.getElem?_eq_getElem (by omega)]
      rfl
  rw [hbind p (hcount ▸ hlen), hbind q hlen, ← withOperands_skeleton, h, withOperands_skeleton]

end

end Predicate

/-! ## Modulators -/

namespace Modulators

/-- The modulator that a policy hands to the operand with a number. -/
inductive Hands : List Traversal → ModulatorPolicy → Nat → Traversal → Prop
  /-- Without modulators, every operand stays as it is. -/
  | none (policy : ModulatorPolicy) (m : Nat) : Hands [] policy m .identity
  /-- A single modulator serves all operands. -/
  | only (t : Traversal) (m : Nat) : Hands [t] .broadcast m t
  /-- The modulators are handed out over and over. -/
  | cycled {bys : List Traversal} {m : Nat} {t : Traversal} (h : bys[m % bys.length]? = some t) :
    Hands bys .cycle m t
  /-- Each operand has a modulator of its own. -/
  | each {bys : List Traversal} {policy : ModulatorPolicy} {m : Nat} {t : Traversal}
    (several : policy = .broadcast → bys.length ≠ 1) (once : policy ≠ .cycle)
    (h : bys[m]? = some t) : Hands bys policy m t

theorem hands_of_at? {bys : List Traversal} {policy : ModulatorPolicy} {m : Nat} {t : Traversal}
    (h : at? bys policy m = some t) : Hands bys policy m t := by
  match bys, policy with
  | [], policy =>
    obtain rfl := Option.some.inj h
    exact .none policy m
  | [only], .broadcast =>
    obtain rfl := Option.some.inj h
    exact .only _ m
  | [only], .strict => exact .each nofun nofun h
  | [only], .cycle => exact .cycled h
  | _ :: _ :: _, .broadcast => exact .each (by simp) nofun h
  | _ :: _ :: _, .strict => exact .each nofun nofun h
  | _ :: _ :: _, .cycle => exact .cycled h

end Modulators

/-! ## Operands by number -/

namespace WherePredicateStep

variable (s : WherePredicateStep) (policy : ModulatorPolicy) (p : Position)

/-- The tag of the operand with a number: the start key, and then the select keys. -/
def tagAt (m : Nat) : String := (s.startTag :: s.selectKeys).getD m ""

def modulatorAt (m : Nat) : Traversal := (Modulators.at? s.bys policy m).getD .identity

/-- The operand with a number: the modulator from the record of the tag. -/
def operandAt (m : Nat) : Traversal := (s.modulatorAt policy m).rootedAt (s.tagAt m)

/-- The operand needs a subquery. -/
def IsImpure (m : Nat) : Prop := (s.operandAt policy m).extract.single? = none

instance : DecidablePred (s.IsImpure policy) := fun _ => inferInstanceAs (Decidable (_ = none))

/-- The number of the subquery of an operand: how many operands before it need one. -/
def numberAt (m : Nat) : Nat := Nat.count (s.IsImpure policy) m

/-- The column of the subquery of an operand. -/
def columnAt (m : Nat) : Alias := .allocate .subquery "" p (UInt32.ofNat (s.numberAt policy m))

/-- What stands for the operand: its expression, or else the column of its subquery. -/
def expressionAt (m : Nat) : String :=
  (s.operandAt policy m).extract.single?.getD (s.columnAt policy p m).expr

end WherePredicateStep

theorem map_count_filter_range (P : Nat → Prop) [DecidablePred P] (n : Nat) :
    ((List.range n).filter fun m => decide (P m)).map (Nat.count P) =
      List.range ((List.range n).filter fun m => decide (P m)).length := by
  rw [← List.countP_eq_length_filter, ← Nat.count]
  induction n with
  | zero => rfl
  | succ n ih =>
    rw [List.range_succ, List.filter_append, List.map_append, ih, Nat.count_succ]
    by_cases hn : P n
    · rw [List.filter_cons_of_pos (by simpa using hn), if_pos hn, List.range_succ]
      rfl
    · rw [List.filter_cons_of_neg (by simpa using hn), if_neg hn]
      exact List.append_nil _

namespace WherePredicateStep

variable {s : WherePredicateStep} {c : Context} {policy : ModulatorPolicy} {p : Position}

/-- The subquery of an operand, as it is lowered in a context. -/
def IsSubqueryAt (s : WherePredicateStep) (c : Context) (m : Nat) (o : Operator) : Prop :=
  ∃ plan, (c.build (s.operandAt c.config.policy m)
      (c.step.position.child (s.numberAt c.config.policy m))).result = .ok plan ∧
    o = .apply plan.operators .inner (some (s.columnAt c.config.policy c.step.position m))

/-- **Operands are resolved by number**: those from some number on, with the subqueries from the number
of their first on. -/
theorem Operands.by_number {i sub : Nat} {tags : List String} {rs : List Resolved}
    (h : Operands c s.bys i sub tags rs) (htags : tags = (s.startTag :: s.selectKeys).drop i)
    (hsub : sub = s.numberAt c.config.policy i) :
    (∀ m ∈ List.range' i tags.length,
      Modulators.Hands s.bys c.config.policy m (s.modulatorAt c.config.policy m)) ∧
    rs.map Resolved.expression =
      (List.range' i tags.length).map (s.expressionAt c.config.policy c.step.position) ∧
    List.Forall₂ (s.IsSubqueryAt c)
      ((List.range' i tags.length).filter fun m => decide (s.IsImpure c.config.policy m))
      (rs.filterMap Resolved.subquery) := by
  induction h with
  | nil => exact ⟨by simp, rfl, .nil⟩
  | @cons i sub tag tags t r rs hmodulator hsize hhead _ ih =>
    subst hsub
    have htag : s.tagAt i = tag := by
      rw [tagAt, List.getD_eq_getElem?_getD, ← List.head?_drop, ← htags]
      rfl
    have hby : s.modulatorAt c.config.policy i = t := by rw [modulatorAt, hmodulator]; rfl
    have hoperand : t.rootedAt tag = s.operandAt c.config.policy i := by rw [operandAt, hby, htag]
    rw [hoperand] at hhead ih
    have hnext : tags = (s.startTag :: s.selectKeys).drop (i + 1) := by
      rw [← List.tail_drop, ← htags, List.tail_cons]
    have hnumber : (if (s.operandAt c.config.policy i).extract.single?.isSome
        then s.numberAt c.config.policy i else s.numberAt c.config.policy i + 1) =
        s.numberAt c.config.policy (i + 1) := by
      unfold numberAt
      rw [Nat.count_succ]
      cases he : (s.operandAt c.config.policy i).extract.single? <;> simp [IsImpure, he]
    obtain ⟨hhands, hexpressions, hsubqueries⟩ := ih hnext hnumber
    have hexpression : r.expression = s.expressionAt c.config.policy c.step.position i :=
      hhead.expression_eq
    rw [List.length_cons, List.range'_succ]
    refine ⟨List.forall_mem_cons.2 ⟨hby ▸ Modulators.hands_of_at? hmodulator, hhands⟩, ?_, ?_⟩
    · rw [List.map_cons, List.map_cons, hexpression, hexpressions]
    cases he : (s.operandAt c.config.policy i).extract.single? with
    | some e =>
      rw [he] at hhead
      cases hhead
      rw [List.filter_cons_of_neg (by simp [IsImpure, he])]
      exact hsubqueries
    | none =>
      rw [he] at hhead
      cases hhead with
      | subquery plan hplan =>
        rw [List.filter_cons_of_pos (by simp [IsImpure, he])]
        exact .cons ⟨plan, hplan, rfl⟩ hsubqueries

theorem filter_of_expressions {subject : Resolved} {keys : List Resolved}
    (hcount : s.predicate.leafCount = s.selectKeys.length)
    (h : (subject :: keys).map Resolved.expression =
      (List.range (s.selectKeys.length + 1)).map (s.expressionAt policy p)) :
    (s.predicate.bind (keys.map Resolved.expression)).1.flatten subject.expression =
      (s.predicate.withOperands (fun j => .expr (s.expressionAt policy p (j + 1))) 0).flatten
        (s.expressionAt policy p 0) := by
  rw [List.range_succ_eq_map, List.map_cons, List.map_cons, List.map_map] at h
  obtain ⟨hsubject, hkeys⟩ := List.cons.inj h
  rw [hsubject, hkeys]
  refine congrArg _ (s.predicate.bind_eq_withOperands 0 _ (by simp [hcount]) fun j hj => ?_)
  rw [hcount] at hj
  simp [hj]

theorem lower_of_skeleton {q : Predicate} (h : q.skeleton = s.predicate.skeleton) :
    lower { s with predicate := q } c = s.lower c := by
  have hcount : q.leafCount = s.predicate.leafCount := by
    rw [← q.leafCount_skeleton, h, Predicate.leafCount_skeleton]
  rw [lower_eq, lower_eq]
  unfold ModulatedStep.lowerParts ModulatedStep.fault?
  dsimp only
  rw [hcount]
  by_cases hkeys : s.predicate.leafCount = s.selectKeys.length
  · rw [if_neg (not_not_intro hkeys)]
    have hterminal : ∀ es : List String,
        (ModulatedStep.wherePredicate { s with predicate := q }).terminal c es =
          (ModulatedStep.wherePredicate s).terminal c es := by
      intro es
      unfold ModulatedStep.terminal
      dsimp only
      split
      · rfl
      · rename_i hlen
        rw [Predicate.bind_of_skeleton h (by rw [List.length_tail]; omega)]
    simp only [hterminal]
    rfl
  · rw [if_pos hkeys]

/-- **Every comparison has its operand.** If a `where` is lowered, there is one comparison for each
select key and one modulator for each operand. The filter is the predicate of the step, where the
comparison with a number has for its operand what stands for the next record, and the subject is what
stands for the start record. The operands that need a subquery are numbered from zero on, in the same
order. What the comparisons held before never matters. -/
theorem comparisons_of_lower (s : WherePredicateStep) (c : Context) :
    let policy := c.config.policy
    let position := c.step.position
    let n := s.selectKeys.length
    let impure := (List.range (n + 1)).filter fun m => decide (s.IsImpure policy m)
    (∀ ops, (s.lower c).result = .ok ops →
      s.predicate.leafCount = n ∧
      (∀ m ≤ n, Modulators.Hands s.bys policy m (s.modulatorAt policy m)) ∧
      (∃ subqueries, List.Forall₂ (s.IsSubqueryAt c) impure subqueries ∧
        ops = subqueries ++ [.select ((s.predicate.withOperands
          (fun j => .expr (s.expressionAt policy position (j + 1))) 0).flatten
            (s.expressionAt policy position 0))]) ∧
      impure.map (s.numberAt policy) = List.range impure.length) ∧
    ∀ q : Predicate, q.skeleton = s.predicate.skeleton →
      lower { s with predicate := q } c = s.lower c := by
  intro policy position n impure
  refine ⟨fun ops hops => ?_, fun q hq => lower_of_skeleton hq⟩
  obtain ⟨hcount, subject, keys, hoperands, rfl⟩ := lower_eq_ok.1 hops
  obtain ⟨hhands, hexpressions, hsubqueries⟩ := hoperands.by_number rfl rfl
  rw [List.length_cons, ← List.range_eq_range'] at hhands hexpressions hsubqueries
  refine ⟨hcount, fun m hm => hhands m (by simp only [List.mem_range]; omega), ?_, ?_⟩
  · refine ⟨_, hsubqueries, ?_⟩
    rw [Resolved.operators, filter_of_expressions hcount hexpressions]
  · exact map_count_filter_range _ _

open Traversal in
/-- Compares a tagged record with three others, by the number of neighbours and by a property in
turn. -/
def compareInTurn : WherePredicateStep :=
  let degree := (identity.outgoing []).count
  let greater := Predicate.compareTo .gt .null
  ⟨some "a", .any [greater, .not (.all [.compareTo .lt (.int 3), greater])], ["b", "c", "d"],
    [degree, identity.values "age"]⟩

/-- The fifth step of a query whose modulators are handed out over and over. -/
def inTurnContext : Context :=
  let config : Config := ⟨.cycle, 0, false⟩
  ⟨fun t scope => t.build config scope, config, ⟨"where", Position.root.child 4⟩⟩

theorem comparisons_of_lower_compareInTurn :
    ∃ ops subqueries, (compareInTurn.lower inTurnContext).result = .ok ops ∧
      List.Forall₂ (compareInTurn.IsSubqueryAt inTurnContext) [0, 2] subqueries ∧
      ops = subqueries ++ [.select
        "@~expr_4_0 > @b.age || !(@~expr_4_0 < @~expr_4_1 && @~expr_4_0 > @d.age)"] ∧
      [0, 2].map (compareInTurn.numberAt .cycle) = [0, 1] ∧
      ∀ q : Predicate, q.skeleton = compareInTurn.predicate.skeleton →
        lower { compareInTurn with predicate := q } inTurnContext =
          compareInTurn.lower inTurnContext := by
  have himpure : ((List.range (compareInTurn.selectKeys.length + 1)).filter fun m =>
      decide (compareInTurn.IsImpure inTurnContext.config.policy m)) = [0, 2] := by cbv
  have hfilter : (compareInTurn.predicate.withOperands (fun j =>
      .expr (compareInTurn.expressionAt .cycle (Position.root.child 4) (j + 1))) 0).flatten
        (compareInTurn.expressionAt .cycle (Position.root.child 4) 0) =
      "@~expr_4_0 > @b.age || !(@~expr_4_0 < @~expr_4_1 && @~expr_4_0 > @d.age)" := by cbv
  have hok : (compareInTurn.lower inTurnContext).result.isOk = true := by cbv
  obtain ⟨hlowered, hsame⟩ := comparisons_of_lower compareInTurn inTurnContext
  cases h : (compareInTurn.lower inTurnContext).result with
  | error e =>
    rw [h] at hok
    cases hok
  | ok ops =>
    obtain ⟨-, -, ⟨subqueries, hsubqueries, hops⟩, hnumbers⟩ := hlowered ops h
    rw [himpure] at hsubqueries hnumbers
    exact ⟨ops, subqueries, rfl, hsubqueries, hfilter ▸ hops, hnumbers, hsame⟩

end WherePredicateStep

end TraversalPlan

import TraversalPlan.Lowering.Context

/-!
# Lowering `where` and `not`

* `Modulators`: hands the modulators of a `where` to its operands.
* `OperandBinder.bind`: goes through a predicate and gives each comparison its operand.
* `WherePredicateStep.lower`: a subquery for each operand that needs one, all numbered in one
  sequence, then one filter. The start record is compared with the records of the select keys.
* `Traversal.lowerFilter`: a traversal as a filter, or as a subquery that keeps or drops the record.
-/

namespace TraversalPlan

/-! ## Modulators -/

/-- The modulators of a `where`, on their way to the operands. -/
structure Modulators where
  bys : List Traversal
  policy : ModulatorPolicy
  /-- How many operands have asked for a modulator. -/
  consumed : Nat

namespace Modulators

def start (bys : List Traversal) (policy : ModulatorPolicy) : Modulators := ⟨bys, policy, 0⟩

/-- The modulator of the operand with an index. -/
def at? (bys : List Traversal) (policy : ModulatorPolicy) (i : Nat) : Option Traversal :=
  match bys, policy with
  | [], _ => some .identity
  | [only], .broadcast => some only
  | bys, .cycle => bys[i % bys.length]?
  | bys, _ => bys[i]?

/-- A modulator is one of those given, or does nothing. -/
theorem eq_identity_or_mem {bys : List Traversal} {policy : ModulatorPolicy} {i : Nat}
    {t : Traversal} (h : at? bys policy i = some t) : t = .identity ∨ t ∈ bys := by
  unfold at? at h
  split at h
  · exact .inl (Option.some.inj h).symm
  · obtain rfl := Option.some.inj h
    exact .inr List.mem_cons_self
  · exact .inr (List.mem_of_getElem? h)
  · exact .inr (List.mem_of_getElem? h)

/-- The modulator of the next operand, if any is left. -/
def next (m : Modulators) : Option Traversal × Modulators :=
  (at? m.bys m.policy m.consumed, { m with consumed := m.consumed + 1 })

end Modulators

/-! ## Predicates -/

namespace WherePredicateStep

/-- Resolves the record of a tag, with the number of the next subquery. Returns the modulators and the
number that are left for the operands after it. -/
def operand (c : Context) (m : Modulators) (sub : Nat) (tag : String) :
    Lowering (Resolved × Modulators × Nat) :=
  match m.next with
  | (none, m) => c.fail (.modulatorsExhausted m.consumed)
  | (some modulator, m) => do
    let t := modulator.rootedAt tag
    let e ← c.one t.extract
    let r ← c.orSubquery e t (c.column .subquery "" sub) sub
    return (r, m, if e.isSome then sub else sub + 1)

end WherePredicateStep

/-- What the operands of a predicate draw on, and the subqueries so far. -/
structure OperandBinder where
  modulators : Modulators
  /-- The select keys of the comparisons to come. -/
  keys : List String
  /-- The number of the next subquery. -/
  sub : Nat
  subqueries : List Operator

namespace OperandBinder

/-- The expression of the record of a tag. -/
def operand (c : Context) (tag : String) (b : OperandBinder) :
    Lowering (String × OperandBinder) := do
  let (r, modulators, sub) ← WherePredicateStep.operand c b.modulators b.sub tag
  let subqueries := b.subqueries ++ r.subquery.toList
  return (r.expression, { b with modulators, sub, subqueries })

mutual

/-- Each comparison of the predicate, from left to right, with the record of the next select key. -/
def bind (c : Context) : Predicate → OperandBinder → Lowering (Predicate × OperandBinder)
  | .compare op _, b =>
    match b.keys with
    | [] => c.fail .missingSelectKey
    | key :: keys => do
      let (e, b) ← b.operand c key
      return (.compare op (.expr e), { b with keys })
  | .all ps, b => do
    let (ps, b) ← bindEach c ps b
    return (.all ps, b)
  | .any ps, b => do
    let (ps, b) ← bindEach c ps b
    return (.any ps, b)
  | .not p, b => do
    let (p, b) ← bind c p b
    return (.not p, b)

def bindEach (c : Context) :
    List Predicate → OperandBinder → Lowering (List Predicate × OperandBinder)
  | [], b => pure ([], b)
  | p :: ps, b => do
    let (p, b) ← bind c p b
    let (ps, b) ← bindEach c ps b
    return (p :: ps, b)

end

end OperandBinder

def WherePredicateStep.lower (s : WherePredicateStep) (c : Context) : Lowering (List Operator) := do
  let comparisons := s.predicate.leafCount
  if comparisons ≠ s.selectKeys.length then
    c.fail (.keyCount s.selectKeys.length comparisons)
  else
    let b : OperandBinder := ⟨.start s.bys c.config.policy, s.selectKeys, 0, []⟩
    let (subject, b) ← b.operand c s.startTag
    let (filter, b) ← OperandBinder.bind c s.predicate b
    return b.subqueries ++ [.select (filter.flatten subject)]

/-! ## Traversals -/

/-- A traversal as a filter of records. -/
def Traversal.lowerFilter (t : Traversal) (c : Context) (filter : String → String)
    (join : JoinKind) : Lowering (List Operator) := do
  match ← c.one t.extract with
  | some e => return [.select (filter e)]
  | none => return [← c.existence t join]

/-- Keeps the records for which the traversal yields something. -/
def Traversal.lowerWhere (t : Traversal) (c : Context) : Lowering (List Operator) :=
  t.lowerFilter c (fun e => e) .semi

/-- Keeps the records for which the traversal yields nothing. -/
def Traversal.lowerNot (t : Traversal) (c : Context) : Lowering (List Operator) :=
  t.lowerFilter c Expr.negate .anti

end TraversalPlan

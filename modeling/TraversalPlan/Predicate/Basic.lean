import TraversalPlan.Value.Basic

/-!
# Predicates and boolean expressions

* `Predicate`: a tree of comparisons of one subject.
* `Predicate.flatten`: the boolean expression of a predicate applied to a subject. A connective puts
  parentheses around the children that are themselves `Predicate.isCompound`.
* `Expr.conjoin`, `Expr.negate`: conjunction and negation of expressions that are already text.
-/

namespace TraversalPlan

/-- An operator between a subject and an operand. -/
inductive CompareOp where
  | eq
  | neq
  | lt
  | lte
  | gt
  | gte
  | within
  | without
  | startingWith
  | endingWith
  | containing
deriving DecidableEq, Repr

/-- How the operator is spelled in an expression. -/
def CompareOp.symbol : CompareOp → String
  | eq => "=="
  | neq => "!="
  | lt => "<"
  | lte => "<="
  | gt => ">"
  | gte => ">="
  | within => "within"
  | without => "without"
  | startingWith => "startsWith"
  | endingWith => "endsWith"
  | containing => "contains"

/-- What a subject is compared with. -/
inductive Operand where
  | literal (v : Value)
  | expr (e : String)
deriving Inhabited, Repr

/-- The operand as it stands in an expression. -/
def Operand.text : Operand → String
  | literal v => v.text
  | expr e => e

/-! ## Expressions as text -/

namespace Expr

/-- Parentheses around a compound expression. -/
def group (e : String) (compound : Bool) : String := if compound then "(" ++ e ++ ")" else e

/-- The conjunction of expressions, each with whether it is compound. A single one stays as it is. -/
def conjoin : List (String × Bool) → String
  | [part] => part.1
  | parts => " && ".intercalate (parts.map fun part => group part.1 part.2)

/-- Whether a text occurs inside another. -/
def occurs (part whole : List Char) : Bool :=
  match whole with
  | [] => part.isEmpty
  | c :: rest => part.isPrefixOf (c :: rest) || occurs part rest

/-- A conjunction or disjunction occurs in the expression, be it inside a literal. -/
def mentionsConnective (e : String) : Bool :=
  occurs ['&', '&'] e.toList || occurs ['|', '|'] e.toList

/-- The negation of an expression. -/
def negate (e : String) : String := "!" ++ group e (mentionsConnective e)

end Expr

/-! ## Predicates -/

/-- A tree of comparisons. -/
inductive Predicate where
  | compare (op : CompareOp) (operand : Operand)
  | all (ps : List Predicate)
  | any (ps : List Predicate)
  | not (p : Predicate)
deriving Inhabited, Repr

namespace Predicate

/-- A comparison with a literal. -/
def compareTo (op : CompareOp) (v : Value) : Predicate := compare op (.literal v)

def eq (v : Value) : Predicate := compareTo .eq v

def lt (v : Value) : Predicate := compareTo .lt v

def gt (v : Value) : Predicate := compareTo .gt v

/-- Membership in a list of values. -/
def within (vs : List Value) : Predicate := compareTo .within (.list vs)

/-- The conjunction with another predicate, which joins the children of a conjunction. -/
def and : Predicate → Predicate → Predicate
  | all ps, q => all (ps ++ [q])
  | p, q => all [p, q]

/-- The disjunction with another predicate, which joins the children of a disjunction. -/
def or : Predicate → Predicate → Predicate
  | any ps, q => any (ps ++ [q])
  | p, q => any [p, q]

def negate (p : Predicate) : Predicate := not p

/-- A connective of several children, whose expression has `&&` or `||` outside parentheses. A
connective of one child is as compound as the child. -/
def isCompound : Predicate → Bool
  | all [p] => isCompound p
  | any [p] => isCompound p
  | all ps => decide (1 < ps.length)
  | any ps => decide (1 < ps.length)
  | compare _ _ => false
  | not _ => false

mutual

/-- The number of comparisons. -/
def leafCount : Predicate → Nat
  | compare _ _ => 1
  | all ps => leafCounts ps
  | any ps => leafCounts ps
  | not p => leafCount p

/-- The number of comparisons in all of the predicates. -/
def leafCounts : List Predicate → Nat
  | [] => 0
  | p :: ps => leafCount p + leafCounts ps

end

mutual

/-- The boolean expression of a predicate applied to a subject. -/
def flatten (subject : String) : Predicate → String
  | compare op operand => subject ++ " " ++ op.symbol ++ " " ++ operand.text
  | all [] => "true"
  | all [p] => flatten subject p
  | all ps => " && ".intercalate (flattenEach subject ps)
  | any [] => "false"
  | any [p] => flatten subject p
  | any ps => " || ".intercalate (flattenEach subject ps)
  | not p => "!" ++ Expr.group (flatten subject p) (isCompound p)

/-- The expressions of the children of a connective. -/
def flattenEach (subject : String) : List Predicate → List String
  | [] => []
  | p :: ps => Expr.group (flatten subject p) (isCompound p) :: flattenEach subject ps

end

end Predicate
end TraversalPlan

import Mathlib.Data.List.Forall2
import TraversalPlan.Proofs.Expression.Formula
import TraversalPlan.Proofs.Value.Word

/-!
# Expressions of predicates are unambiguous

* `Predicate.formula`: what the expression of a predicate says. A connective of one child says what
  the child says, one of none is a constant.
* `Expr.Spells`: a text with the words of a formula, read the same wherever it stands.
* `isConnective_formula`: parentheses are put where the formula needs them.
* `Predicate.spells_flatten`: the text of a predicate spells its formula if every side of a comparison
  is an operand; `Predicate.read_iff`: otherwise it does not read as the formula.
* **`Predicate.read_flatten`**: a predicate is read back from its text.
-/

namespace TraversalPlan

open TraversalPlan.Expr

/-! ## What predicates say -/

namespace Predicate

mutual

/-- What the predicate says of a subject. -/
def formula (subject : String) : Predicate → Formula
  | compare op operand => .compare subject op operand.text
  | all [] => .const true
  | all [p] => formula subject p
  | all ps => .all (formulas subject ps)
  | any [] => .const false
  | any [p] => formula subject p
  | any ps => .any (formulas subject ps)
  | not p => .not (formula subject p)

def formulas (subject : String) : List Predicate → List Formula
  | [] => []
  | p :: ps => formula subject p :: formulas subject ps

end

mutual

/-- What the comparisons compare with, from left to right. -/
def operands : Predicate → List Operand
  | compare _ operand => [operand]
  | all ps => operandsOf ps
  | any ps => operandsOf ps
  | not p => operands p

def operandsOf : List Predicate → List Operand
  | [] => []
  | p :: ps => operands p ++ operandsOf ps

end

/-- Every operand is a literal or refers to a column. -/
def RefersToColumns (p : Predicate) : Prop := ∀ e, .expr e ∈ p.operands → IsReference e

/-! ## Parentheses -/

theorem isConnective_formula (s : String) : ∀ p : Predicate, (p.formula s).isConnective = p.isCompound
  | compare _ _ => rfl
  | not _ => rfl
  | all [] => rfl
  | all [p] => by rw [formula, isCompound]; exact isConnective_formula s p
  | all (_ :: _ :: _) => by simp [formula, isCompound, Formula.isConnective]
  | any [] => rfl
  | any [p] => by rw [formula, isCompound]; exact isConnective_formula s p
  | any (_ :: _ :: _) => by simp [formula, isCompound, Formula.isConnective]

mutual

theorem regular_formula (s : String) (p : Predicate) : (p.formula s).Regular := by
  match p with
  | compare op operand => exact .compare _ _ _
  | not p => exact .not (regular_formula s p)
  | all [] => exact .const true
  | all [p] => exact regular_formula s p
  | all (p :: q :: ps) => exact .joined .and (regular_formulas s (p :: q :: ps))
  | any [] => exact .const false
  | any [p] => exact regular_formula s p
  | any (p :: q :: ps) => exact .joined .or (regular_formulas s (p :: q :: ps))

theorem regular_formulas (s : String) (ps : List Predicate) :
    ∀ f ∈ formulas s ps, f.Regular := by
  match ps with
  | [] => exact nofun
  | p :: ps => exact List.forall_mem_cons.2 ⟨regular_formula s p, regular_formulas s ps⟩

end

end Predicate

/-! ## Texts that can be negated -/

namespace Expr

theorem Negatable.group {e : String} (h : Negatable e) (compound : Bool) :
    Negatable (group e compound) := by
  cases compound with
  | false => exact h
  | true =>
    have hopen : Negatable "(" := ⟨'(', [], rfl, by decide⟩
    exact (hopen.append _).append _

theorem negatable_intercalate {e : String} (h : Negatable e) (d : String) (es : List String) :
    Negatable (d.intercalate (e :: es)) := by
  cases es with
  | nil =>
    rw [String.intercalate_singleton]
    exact h
  | cons f es =>
    rw [String.intercalate_cons_cons]
    exact (h.append _).append _

end Expr

/-- The text of a predicate begins with its subject, a parenthesis, a negation or a constant. -/
theorem Predicate.negatable_flatten {s : String} (hs : Negatable s) :
    ∀ p : Predicate, Negatable (p.flatten s)
  | compare _ _ => (((hs.append _).append _).append _).append _
  | not _ => by
    have hbang : Negatable "!" := ⟨'!', [], rfl, by decide⟩
    exact hbang.append _
  | all [] => by
    rw [flatten]
    exact ⟨'t', ['r', 'u', 'e'], rfl, by decide⟩
  | all [p] => negatable_flatten hs p
  | all (p :: q :: ps) => negatable_intercalate ((negatable_flatten hs p).group _) _ _
  | any [] => by
    rw [flatten]
    exact ⟨'f', ['a', 'l', 's', 'e'], rfl, by decide⟩
  | any [p] => negatable_flatten hs p
  | any (p :: q :: ps) => negatable_intercalate ((negatable_flatten hs p).group _) _ _

/-! ## Spelling -/

namespace Expr

/-- The text has the words of trees, also where it stands inside another text. -/
structure Spells (e : String) (ts : List Tree) : Prop where
  closed : Closed e.toList
  words : lexemes e.toList = Tree.lexemesOf ts
  negatable : Negatable e

/-- How a connective is written between two terms. -/
def separator : Connective → String
  | .and => " && "
  | .or => " || "

namespace Spells

variable {e d : String} {ts us : List Tree}

theorem operand (h : IsOperand e) : Spells e [.leaf (.operand e)] :=
  ⟨h.closed, h.word, h.negatable⟩

theorem read {f : Formula} (h : Spells e f.trees) (hf : f.Regular) : Formula.read e = some f :=
  Formula.read_eq_some h.closed h.words hf

/-- A text, a word between blanks and another text. -/
theorem between (he : Spells e ts) (hd : Spells d us) {w : String} {t : Token}
    (hclosed : Closed w.toList) (hw : lexemes w.toList = [.token t]) :
    Spells (e ++ " " ++ w ++ " " ++ d) (ts ++ .leaf t :: us) := by
  have htext : (e ++ " " ++ w ++ " " ++ d).toList =
      e.toList ++ ' ' :: (w.toList ++ ' ' :: d.toList) := by
    simp
  refine ⟨?_, ?_, ?_⟩
  · have hblank : Closed [' '] := rfl
    rw [htext]
    exact he.closed.append (hblank.append (hclosed.append (hblank.append hd.closed)))
  · rw [htext, lexemes_append_blank he.closed, lexemes_append_blank hclosed, he.words, hw, hd.words,
      Tree.lexemesOf_append]
    rfl
  · exact (((he.negatable.append _).append _).append _).append _

theorem compare {l r : String} (hl : IsOperand l) (o : CompareOp) (hr : IsOperand r) :
    Spells (l ++ " " ++ o.symbol ++ " " ++ r) (Formula.compare l o r).trees := by
  refine (operand hl).between (operand hr) ?_ ?_ <;> cases o <;> decide

theorem join (he : Spells e ts) (c : Connective) (hd : Spells d us) :
    Spells (e ++ separator c ++ d) (ts ++ .leaf (.join c) :: us) := by
  have h : ∀ w, separator c = " " ++ w ++ " " → Closed w.toList →
      lexemes w.toList = [.token (.join c)] →
      Spells (e ++ separator c ++ d) (ts ++ .leaf (.join c) :: us) := by
    intro w hsep hclosed hw
    have := he.between hd hclosed hw
    rwa [hsep, ← String.append_assoc, ← String.append_assoc]
  cases c
  · exact h "&&" rfl (by decide) (by decide)
  · exact h "||" rfl (by decide) (by decide)

theorem negate (h : Spells e ts) : Spells ("!" ++ e) (.leaf .bang :: ts) := by
  have htext : ("!" ++ e).toList = '!' :: e.toList := by simp
  refine ⟨?_, ?_, ?_⟩
  · rw [htext]
    exact h.closed
  · rw [htext, lexemes_bang h.negatable.head?_ne, h.words]
    rfl
  · exact ⟨'!', _, htext, by decide⟩

theorem group (h : Spells e ts) : Spells ("(" ++ e ++ ")") [.group ts] := by
  have htext : ("(" ++ e ++ ")").toList = '(' :: (e.toList ++ [')']) := by simp
  refine ⟨?_, ?_, ?_⟩
  · have hopen : Closed ['('] := rfl
    rw [htext]
    exact hopen.append (h.closed.append rfl)
  · rw [htext, lexemes_opening, lexemes_append_closing h.closed, h.words]
    simp [Tree.lexemesOf, Tree.lexemes, show lexemes [] = [] from rfl]
  · exact ⟨'(', _, htext, by decide⟩

theorem enclose {f : Formula} (h : Spells e f.trees) :
    Spells (Expr.group e f.isConnective) (f.enclose f.trees) := by
  unfold Expr.group Formula.enclose
  split
  · exact h.group
  · exact h

theorem intercalate (c : Connective) {es : List String} {fs : List Formula}
    (h : List.Forall₂ (fun e f => Spells e (Formula.enclose f f.trees)) es fs) (hne : es ≠ []) :
    Spells ((separator c).intercalate es) (Formula.joined c fs) := by
  induction h with
  | nil => exact absurd rfl hne
  | @cons e f es fs he hrest ih =>
    cases hrest with
    | nil =>
      rw [String.intercalate_singleton, Formula.joined, Formula.following, List.append_nil]
      exact he
    | cons hd hmore =>
      rw [String.intercalate_cons_cons]
      exact he.join c (ih (List.cons_ne_nil _ _))

end Spells
end Expr

/-! ## Reading predicates -/

namespace Predicate

mutual

/-- **The text of a predicate has the words of its formula.** -/
theorem spells_flatten {s : String} (p : Predicate)
    (hp : ∀ o ∈ p.operands, IsOperand s ∧ IsOperand o.text) :
    Spells (p.flatten s) (p.formula s).trees := by
  match p with
  | compare op operand =>
    obtain ⟨hs, hoperand⟩ := hp operand List.mem_cons_self
    exact .compare hs op hoperand
  | not p =>
    have henclosed := (spells_flatten p hp).enclose
    rw [isConnective_formula] at henclosed
    exact henclosed.negate
  | all [] => exact .operand (Value.isOperand_text (.bool true))
  | all [p] => exact spells_flatten p fun o ho => hp o (List.mem_append_left _ ho)
  | all (p :: q :: ps) =>
    exact .intercalate .and (spells_flattenEach (p :: q :: ps) hp) (List.cons_ne_nil _ _)
  | any [] => exact .operand (Value.isOperand_text (.bool false))
  | any [p] => exact spells_flatten p fun o ho => hp o (List.mem_append_left _ ho)
  | any (p :: q :: ps) =>
    exact .intercalate .or (spells_flattenEach (p :: q :: ps) hp) (List.cons_ne_nil _ _)

theorem spells_flattenEach {s : String} (ps : List Predicate)
    (hps : ∀ o ∈ operandsOf ps, IsOperand s ∧ IsOperand o.text) :
    List.Forall₂ (fun e f => Spells e (Formula.enclose f f.trees)) (flattenEach s ps)
      (formulas s ps) := by
  match ps with
  | [] => exact .nil
  | p :: ps =>
    have hfirst := (spells_flatten p fun o ho => hps o (List.mem_append_left _ ho)).enclose
    rw [isConnective_formula] at hfirst
    exact .cons hfirst (spells_flattenEach ps fun o ho => hps o (List.mem_append_right _ ho))

end

mutual

/-- Every comparison has the subject on its left side. -/
theorem sides_formula (s : String) (p : Predicate) :
    (p.formula s).sides = p.operands.flatMap fun o => [s, o.text] := by
  match p with
  | compare op operand => rfl
  | not p => exact sides_formula s p
  | all [] => rfl
  | all [p] =>
    rw [formula, operands, operandsOf, operandsOf, List.append_nil]
    exact sides_formula s p
  | all (p :: q :: ps) => exact sidesOf_formulas s (p :: q :: ps)
  | any [] => rfl
  | any [p] =>
    rw [formula, operands, operandsOf, operandsOf, List.append_nil]
    exact sides_formula s p
  | any (p :: q :: ps) => exact sidesOf_formulas s (p :: q :: ps)

theorem sidesOf_formulas (s : String) (ps : List Predicate) :
    Formula.sidesOf (formulas s ps) = (operandsOf ps).flatMap fun o => [s, o.text] := by
  match ps with
  | [] => rfl
  | p :: ps =>
    rw [formulas, Formula.sidesOf, operandsOf, List.flatMap_append, sides_formula s p,
      sidesOf_formulas s ps]

end

/-- **A predicate is read back from its text just if every side of a comparison is an operand.** -/
theorem read_iff {s : String} {p : Predicate} (hs : Negatable s)
    (hp : ∀ o ∈ p.operands, Negatable o.text) :
    Formula.read (p.flatten s) = some (p.formula s) ↔
      ∀ o ∈ p.operands, IsOperand s ∧ IsOperand o.text := by
  refine ⟨fun hread o ho => ?_, fun h => (spells_flatten p h).read (regular_formula s p)⟩
  have hside : ∀ t ∈ [s, o.text], IsWord t ∧ Closed t.toList := by
    intro t ht
    refine Formula.word_of_read hread ?_
    rw [sides_formula]
    exact List.mem_flatMap.2 ⟨o, ho, ht⟩
  obtain ⟨hsubject, hsubjectClosed⟩ := hside s (by simp)
  obtain ⟨hoperand, hoperandClosed⟩ := hside o.text (by simp)
  exact ⟨⟨hsubjectClosed, hsubject, hs⟩, ⟨hoperandClosed, hoperand, hp o ho⟩⟩

theorem RefersToColumns.isOperand {p : Predicate} (hp : p.RefersToColumns) :
    ∀ o ∈ p.operands, IsOperand o.text := by
  intro o ho
  cases o with
  | literal v => exact Value.isOperand_text v
  | expr e => exact (hp e ho).isOperand

/-! ## Connectives of predicates -/

variable (v : Valuation) (s : String)

theorem allHold_formulas (ps : List Predicate) :
    Formula.allHold v (formulas s ps) = ps.all fun p => (p.formula s).holds v := by
  induction ps with
  | nil => rfl
  | cons p ps ih => rw [formulas, Formula.allHold, ih, List.all_cons]

theorem anyHolds_formulas (ps : List Predicate) :
    Formula.anyHolds v (formulas s ps) = ps.any fun p => (p.formula s).holds v := by
  induction ps with
  | nil => rfl
  | cons p ps ih => rw [formulas, Formula.anyHolds, ih, List.any_cons]

theorem holds_all (ps : List Predicate) :
    ((all ps).formula s).holds v = ps.all fun p => (p.formula s).holds v := by
  match ps with
  | [] => rfl
  | [p] => simp [formula]
  | p :: q :: ps => exact allHold_formulas v s (p :: q :: ps)

theorem holds_any (ps : List Predicate) :
    ((any ps).formula s).holds v = ps.any fun p => (p.formula s).holds v := by
  match ps with
  | [] => rfl
  | [p] => simp [formula]
  | p :: q :: ps => exact anyHolds_formulas v s (p :: q :: ps)

theorem holds_and (p q : Predicate) :
    ((p.and q).formula s).holds v = ((p.formula s).holds v && (q.formula s).holds v) := by
  cases p with
  | all ps => rw [and, holds_all, holds_all, List.all_append, List.all_cons, List.all_nil,
      Bool.and_true]
  | _ => simp [and, holds_all]

theorem holds_or (p q : Predicate) :
    ((p.or q).formula s).holds v = ((p.formula s).holds v || (q.formula s).holds v) := by
  cases p with
  | any ps => rw [or, holds_any, holds_any, List.any_append, List.any_cons, List.any_nil,
      Bool.or_false]
  | _ => simp [or, holds_any]

theorem mem_operandsOf_append {ps qs : List Predicate} {o : Operand} :
    o ∈ operandsOf (ps ++ qs) ↔ o ∈ operandsOf ps ∨ o ∈ operandsOf qs := by
  induction ps with
  | nil => simp [operandsOf]
  | cons p ps ih => simp [operandsOf, ih, or_assoc]

variable {v s} {p q : Predicate}

theorem RefersToColumns.and (hp : p.RefersToColumns) (hq : q.RefersToColumns) :
    (p.and q).RefersToColumns := by
  intro e he
  have hsplit : .expr e ∈ p.operands ∨ .expr e ∈ q.operands := by
    cases p <;> simpa [Predicate.and, operands, operandsOf, mem_operandsOf_append] using he
  exact hsplit.elim (hp e) (hq e)

theorem RefersToColumns.or (hp : p.RefersToColumns) (hq : q.RefersToColumns) :
    (p.or q).RefersToColumns := by
  intro e he
  have hsplit : .expr e ∈ p.operands ∨ .expr e ∈ q.operands := by
    cases p <;> simpa [Predicate.or, operands, operandsOf, mem_operandsOf_append] using he
  exact hsplit.elim (hp e) (hq e)

/-- **A predicate is read back from its text**, and what is built from predicates by negation,
conjunction and disjunction reads as just that. -/
theorem read_flatten (hs : IsReference s) (hp : p.RefersToColumns) :
    Formula.read (p.flatten s) = some (p.formula s) ∧
      Formula.read (p.negate.flatten s) = some (.not (p.formula s)) ∧
      ∀ q, q.RefersToColumns →
        Formula.read ((p.and q).flatten s) = some ((p.and q).formula s) ∧
        Formula.read ((p.or q).flatten s) = some ((p.or q).formula s) ∧
        ∀ v, ((p.and q).formula s).holds v = ((p.formula s).holds v && (q.formula s).holds v) ∧
          ((p.or q).formula s).holds v = ((p.formula s).holds v || (q.formula s).holds v) := by
  have hread : ∀ {r : Predicate}, r.RefersToColumns →
      Formula.read (r.flatten s) = some (r.formula s) := fun hr =>
    (spells_flatten _ fun o ho => ⟨hs.isOperand, hr.isOperand o ho⟩).read (regular_formula s _)
  refine ⟨hread hp, hread (r := .not p) hp, fun q hq => ⟨hread (hp.and hq), hread (hp.or hq), ?_⟩⟩
  exact fun v => ⟨holds_and v s p q, holds_or v s p q⟩

/-- A literal that looks like the rest of a longer expression. -/
def quoting : Predicate := any [eq (.string "x) && y"), compare .gt (.expr "@b")]

theorem read_flatten_quoting :
    (IsReference "@a" ∧ quoting.RefersToColumns) ∧
      quoting.negate.flatten "@a" = "!(@a == \"x) && y\" || @a > @b)" ∧
      Formula.read (quoting.negate.flatten "@a") = some (.not (quoting.formula "@a")) := by
  have hsubject : IsReference "@a" := ⟨['a'], rfl, by simp⟩
  have hcolumns : quoting.RefersToColumns := by
    intro e he
    obtain rfl : e = "@b" := by simpa [quoting, eq, compareTo, operands, operandsOf] using he
    exact ⟨['b'], rfl, by simp⟩
  exact ⟨⟨hsubject, hcolumns⟩, by decide, (read_flatten hsubject hcolumns).2.1⟩

end Predicate
end TraversalPlan

import TraversalPlan.Proofs.Expression.Lexing

/-!
# Reading boolean expressions

Comparisons bind tighter than negation and negation tighter than the two connectives, which are mixed
only through parentheses.

* `Formula`: what an expression says; `Formula.read`: the formula of a text, if it is one.
* `Formula.trees`: the words of a formula, a connective in parentheses inside another formula.
* `terms?_joined`, `isTerm_of_regular`: each reading function on the words of a formula.
* **`Formula.read_eq_some`**: a text reads as the formula whose words it has.
* `Formula.word_of_read`: a comparison that is read has single words as its sides.
-/

namespace TraversalPlan

/-! ## Formulas -/

/-- A boolean expression as it is read. -/
inductive Formula where
  | const (b : Bool)
  /-- An operand for a truth value. -/
  | lone (e : String)
  | compare (left : String) (op : CompareOp) (right : String)
  | not (f : Formula)
  | all (fs : List Formula)
  | any (fs : List Formula)

/-- Which comparisons hold, and which operands are true by themselves. -/
structure Valuation where
  compare : String → CompareOp → String → Bool
  lone : String → Bool

mutual

/-- The truth value of a formula. -/
def Formula.holds (v : Valuation) : Formula → Bool
  | .const b => b
  | .lone e => v.lone e
  | .compare l o r => v.compare l o r
  | .not f => !holds v f
  | .all fs => allHold v fs
  | .any fs => anyHolds v fs

def Formula.allHold (v : Valuation) : List Formula → Bool
  | [] => true
  | f :: fs => holds v f && allHold v fs

def Formula.anyHolds (v : Valuation) : List Formula → Bool
  | [] => false
  | f :: fs => holds v f || anyHolds v fs

end

/-- Words with those between two parentheses in one place. -/
inductive Tree where
  | leaf (t : Token)
  | group (ts : List Tree)

def Connective.formula : Connective → List Formula → Formula
  | .and => .all
  | .or => .any

/-! ## Parentheses -/

namespace Tree

/-- Reads from the right: the trees up to the next parenthesis that closes here, and those around
it, level by level. -/
def nest : List Lexeme → Option (List Tree × List (List Tree))
  | [] => some ([], [])
  | .token t :: ls => (nest ls).map fun (level, outer) => (leaf t :: level, outer)
  | .closing :: ls => (nest ls).map fun (level, outer) => ([], level :: outer)
  | .opening :: ls =>
    match nest ls with
    | some (level, next :: outer) => some (group level :: next, outer)
    | _ => none

def ofLexemes? (ls : List Lexeme) : Option (List Tree) :=
  match nest ls with
  | some (ts, []) => some ts
  | _ => none

end Tree

/-! ## Terms -/

/-- A term, and the further ones after a connective each. -/
structure Terms where
  first : Formula
  more : List (Connective × Formula)

namespace Terms

/-- A negation binds tighter than the connectives. -/
def negateFirst (ts : Terms) : Terms := ⟨.not ts.first, ts.more⟩

def push (f : Formula) (c : Connective) (ts : Terms) : Terms := ⟨f, (c, ts.first) :: ts.more⟩

/-- The formula of terms between which the connective is always the same. -/
def close? : Terms → Option Formula
  | ⟨f, []⟩ => some f
  | ⟨f, (c, g) :: more⟩ =>
    if more.all (fun x => x.1 = c) then some (c.formula (f :: g :: more.map Prod.snd)) else none

end Terms

/-- An operand that is not compared. -/
def Formula.ofWord (e : String) : Formula :=
  if e = "true" then .const true else if e = "false" then .const false else .lone e

mutual

/-- Reads a term and what follows it. -/
def terms? : List Tree → Option Terms
  | .leaf .bang :: ts => (terms? ts).map Terms.negateFirst
  | .leaf (.operand l) :: .leaf (.op o) :: .leaf (.operand r) :: ts => follow? ts (.compare l o r)
  | .leaf (.operand e) :: ts => follow? ts (.ofWord e)
  | t :: ts => (Tree.inner? t).bind (follow? ts)
  | [] => none

/-- Reads what follows a term. -/
def follow? : List Tree → Formula → Option Terms
  | [], f => some ⟨f, []⟩
  | .leaf (.join c) :: ts, f => (terms? ts).map (Terms.push f c)
  | _, _ => none

/-- Reads what stands in parentheses. -/
def Tree.inner? : Tree → Option Formula
  | .leaf _ => none
  | .group ts => (terms? ts).bind Terms.close?

end

/-- **The formula of a text.** -/
def Formula.read (e : String) : Option Formula :=
  if Expr.Closed e.toList then
    ((Tree.ofLexemes? (Expr.lexemes e.toList)).bind terms?).bind Terms.close?
  else none

/-! ## Writing -/

namespace Formula

/-- A connective is put in parentheses inside another formula. -/
def isConnective : Formula → Bool
  | all _ => true
  | any _ => true
  | _ => false

def enclose (f : Formula) (ts : List Tree) : List Tree :=
  if f.isConnective then [.group ts] else ts

mutual

/-- The words of a formula. -/
def trees : Formula → List Tree
  | const b => [.leaf (.operand (if b then "true" else "false"))]
  | lone e => [.leaf (.operand e)]
  | compare l o r => [.leaf (.operand l), .leaf (.op o), .leaf (.operand r)]
  | not f => .leaf .bang :: enclose f (trees f)
  | all fs => joined .and fs
  | any fs => joined .or fs

/-- Formulas with a connective between them. -/
def joined (c : Connective) : List Formula → List Tree
  | [] => []
  | f :: fs => enclose f (trees f) ++ following c fs

/-- Formulas with a connective before each. -/
def following (c : Connective) : List Formula → List Tree
  | [] => []
  | f :: fs => .leaf (.join c) :: (enclose f (trees f) ++ following c fs)

end

/-- A connective has at least two terms, and no operand is spelled like a constant. -/
inductive Regular : Formula → Prop
  | const (b : Bool) : Regular (.const b)
  | lone {e : String} (h : ofWord e = .lone e) : Regular (.lone e)
  | compare (l : String) (o : CompareOp) (r : String) : Regular (.compare l o r)
  | not {f : Formula} (h : Regular f) : Regular (.not f)
  | joined (c : Connective) {f g : Formula} {fs : List Formula}
      (h : ∀ x ∈ f :: g :: fs, Regular x) : Regular (c.formula (f :: g :: fs))

end Formula

/-! ## Reading back -/

section Reading

open Formula

/-- What follows an operand does not compare it. -/
def Uncompared (ts : List Tree) : Prop := ∀ o us, ts ≠ .leaf (.op o) :: us

theorem uncompared_following (c : Connective) (fs : List Formula) :
    Uncompared (following c fs) := by
  intro o us
  cases fs <;> simp [following]

theorem terms?_operand {ts : List Tree} (hts : Uncompared ts) (e : String) :
    terms? (.leaf (.operand e) :: ts) = follow? ts (.ofWord e) := by
  cases ts with
  | nil => rfl
  | cons t ts =>
    cases t with
    | group us => rfl
    | leaf t =>
      cases t with
      | op o => exact absurd rfl (hts o ts)
      | _ => rfl

theorem terms?_group (us ts : List Tree) :
    terms? (.group us :: ts) = (Tree.inner? (.group us)).bind (follow? ts) := rfl

theorem follow?_not (ts : List Tree) (f : Formula) :
    follow? ts (.not f) = (follow? ts f).map Terms.negateFirst := by
  cases ts with
  | nil => rfl
  | cons t ts =>
    cases t with
    | group us => rfl
    | leaf t =>
      cases t with
      | join c =>
        rw [follow?, follow?, Option.map_map]
        rfl
      | _ => rfl

/-- The formula is read as one term. -/
def IsTerm (f : Formula) : Prop :=
  ∀ ts, Uncompared ts → terms? (enclose f (trees f) ++ ts) = follow? ts f

theorem terms?_joined (c : Connective) {f : Formula} {fs : List Formula}
    (h : ∀ x ∈ f :: fs, IsTerm x) :
    terms? (joined c (f :: fs)) = some ⟨f, fs.map fun g => (c, g)⟩ := by
  induction fs generalizing f with
  | nil => exact h f List.mem_cons_self [] (uncompared_following c [])
  | cons g fs ih =>
    have hfirst := h f List.mem_cons_self _ (uncompared_following c (g :: fs))
    have hrest := ih fun x hx => h x (List.mem_cons_of_mem f hx)
    rw [joined] at hrest ⊢
    rw [hfirst, following, follow?, hrest]
    rfl

theorem close?_joined (c : Connective) (f g : Formula) (fs : List Formula) :
    Terms.close? ⟨f, (g :: fs).map fun x => (c, x)⟩ = some (c.formula (f :: g :: fs)) := by
  simp [Terms.close?, Function.comp_def]

theorem trees_joined (c : Connective) (fs : List Formula) :
    (c.formula fs).trees = joined c fs := by
  cases c <;> rw [Connective.formula, trees]

theorem isTerm_of_regular {f : Formula} (h : f.Regular) : IsTerm f := by
  induction h with
  | const b =>
    intro ts hts
    cases b <;> exact terms?_operand hts _
  | @lone e h =>
    intro ts hts
    exact (terms?_operand hts e).trans (congrArg _ h)
  | compare l o r => exact fun ts _ => rfl
  | @not f _ ih =>
    intro ts hts
    have hinner := ih ts hts
    rw [follow?_not, ← hinner]
    rfl
  | @joined c f g fs _ ih =>
    intro ts hts
    have hterms := terms?_joined c ih
    have hgroup : enclose (c.formula (f :: g :: fs)) (c.formula (f :: g :: fs)).trees =
        [.group (joined c (f :: g :: fs))] := by
      rw [trees_joined]
      cases c <;> rfl
    have hinner : Tree.inner? (.group (joined c (f :: g :: fs))) =
        some (c.formula (f :: g :: fs)) := by
      rw [Tree.inner?, hterms, Option.bind_some, close?_joined]
    rw [hgroup, List.singleton_append, terms?_group, hinner, Option.bind_some]

/-- **A formula is read back from its words.** -/
theorem close?_terms?_trees {f : Formula} (h : f.Regular) :
    (terms? f.trees).bind Terms.close? = some f := by
  have hterm := isTerm_of_regular h
  cases h with
  | @joined c f g fs h =>
    rw [trees_joined, terms?_joined c fun x hx => isTerm_of_regular (h x hx), Option.bind_some,
      close?_joined]
  | _ =>
    have := hterm [] (uncompared_following .and [])
    rw [List.append_nil] at this
    exact congrArg (Option.bind · Terms.close?) this

end Reading

/-! ## Parentheses in place -/

namespace Tree

mutual

/-- The words of a tree. -/
def lexemes : Tree → List Lexeme
  | leaf t => [.token t]
  | group ts => .opening :: (lexemesOf ts ++ [.closing])

def lexemesOf : List Tree → List Lexeme
  | [] => []
  | t :: ts => lexemes t ++ lexemesOf ts

end

@[simp]
theorem lexemesOf_append (ts us : List Tree) :
    lexemesOf (ts ++ us) = lexemesOf ts ++ lexemesOf us := by
  induction ts with
  | nil => rfl
  | cons t ts ih => rw [List.cons_append, lexemesOf, lexemesOf, ih, List.append_assoc]

mutual

theorem nest_lexemes (t : Tree) (ls : List Lexeme) :
    nest (t.lexemes ++ ls) = (nest ls).map fun (level, outer) => (t :: level, outer) := by
  cases t with
  | leaf t => rfl
  | group ts =>
    rw [lexemes, List.cons_append, List.append_assoc, nest, nest_lexemesOf ts]
    cases h : nest ls <;> simp [nest, h]

theorem nest_lexemesOf (ts : List Tree) (ls : List Lexeme) :
    nest (lexemesOf ts ++ ls) = (nest ls).map fun (level, outer) => (ts ++ level, outer) := by
  cases ts with
  | nil =>
    rw [lexemesOf, List.nil_append]
    exact Option.map_id'.symm
  | cons t ts =>
    rw [lexemesOf, List.append_assoc, nest_lexemes t, nest_lexemesOf ts, Option.map_map]
    rfl

end

theorem ofLexemes?_lexemesOf (ts : List Tree) : ofLexemes? (lexemesOf ts) = some ts := by
  have h := nest_lexemesOf ts []
  rw [List.append_nil] at h
  rw [ofLexemes?, h]
  simp [nest]

/-- Words that nest are those of the trees, level by level. -/
theorem eq_of_nest {ls : List Lexeme} {level : List Tree} {outer : List (List Tree)}
    (h : nest ls = some (level, outer)) :
    ls = lexemesOf level ++ outer.flatMap fun ts => .closing :: lexemesOf ts := by
  induction ls generalizing level outer with
  | nil =>
    obtain ⟨rfl, rfl⟩ := Prod.mk.inj (Option.some.inj h)
    rfl
  | cons l ls ih =>
    cases l with
    | token t =>
      obtain ⟨⟨level, outer⟩, hrest, h⟩ := Option.map_eq_some_iff.1 h
      obtain ⟨rfl, rfl⟩ := Prod.mk.inj h
      exact congrArg (List.cons _) (ih hrest)
    | closing =>
      obtain ⟨⟨level, outer⟩, hrest, h⟩ := Option.map_eq_some_iff.1 h
      obtain ⟨rfl, rfl⟩ := Prod.mk.inj h
      exact congrArg (List.cons _) (ih hrest)
    | opening =>
      rw [nest] at h
      split at h
      · rename_i level next outer hrest
        obtain ⟨rfl, rfl⟩ := Prod.mk.inj (Option.some.inj h)
        rw [ih hrest]
        simp [lexemesOf, lexemes]
      · cases h

/-- **Only the words of trees nest.** -/
theorem eq_lexemesOf {ls : List Lexeme} {ts : List Tree} (h : ofLexemes? ls = some ts) :
    ls = lexemesOf ts := by
  unfold ofLexemes? at h
  split at h
  · rename_i us hnest
    obtain rfl := Option.some.inj h
    have hwords := eq_of_nest hnest
    rwa [List.flatMap_nil, List.append_nil] at hwords
  · cases h

end Tree

/-- **A text reads as the formula whose words it has.** -/
theorem Formula.read_eq_some {e : String} {f : Formula} (hclosed : Expr.Closed e.toList)
    (hwords : Expr.lexemes e.toList = Tree.lexemesOf f.trees) (h : f.Regular) :
    read e = some f := by
  rw [read, if_pos hclosed, hwords, Tree.ofLexemes?_lexemesOf, Option.bind_some]
  exact close?_terms?_trees h

/-! ## Sides of comparisons -/

namespace Formula

mutual

/-- Both sides of every comparison. -/
def sides : Formula → List String
  | const _ => []
  | lone _ => []
  | compare l _ r => [l, r]
  | not f => sides f
  | all fs => sidesOf fs
  | any fs => sidesOf fs

def sidesOf : List Formula → List String
  | [] => []
  | f :: fs => sides f ++ sidesOf fs

end

theorem sidesOf_map (fs : List (Connective × Formula)) :
    sidesOf (fs.map Prod.snd) = fs.flatMap fun x => x.2.sides := by
  induction fs with
  | nil => rfl
  | cons x fs ih => rw [List.map_cons, sidesOf, ih, List.flatMap_cons]

theorem sides_ofWord (e : String) : (ofWord e).sides = [] := by
  unfold ofWord
  split
  · rfl
  · split <;> rfl

end Formula

def Terms.sides (r : Terms) : List String := r.first.sides ++ r.more.flatMap fun x => x.2.sides

theorem Terms.sides_of_close? {r : Terms} {f : Formula} (h : r.close? = some f) :
    f.sides = r.sides := by
  obtain ⟨first, more⟩ := r
  cases more with
  | nil =>
    obtain rfl := Option.some.inj h
    exact (List.append_nil _).symm
  | cons x more =>
    obtain ⟨c, g⟩ := x
    obtain ⟨-, h⟩ := Option.ite_none_right_eq_some.1 h
    obtain rfl := Option.some.inj h
    cases c <;> simp [Connective.formula, Formula.sides, Formula.sidesOf, Terms.sides,
      Formula.sidesOf_map]

mutual

theorem side_of_terms? {ts : List Tree} {r : Terms} (h : terms? ts = some r) {s : String}
    (hs : s ∈ r.sides) : .token (.operand s) ∈ Tree.lexemesOf ts := by
  rw [terms?.eq_def] at h
  split at h
  · -- a negation has the sides of what it negates
    obtain ⟨r, hrest, rfl⟩ := Option.map_eq_some_iff.1 h
    exact List.mem_cons_of_mem _ (side_of_terms? (r := r) hrest hs)
  · rcases side_of_follow? h hs with hs | hs
    · simp only [Formula.sides, List.mem_cons, List.not_mem_nil, or_false] at hs
      rcases hs with rfl | rfl <;> simp [Tree.lexemesOf, Tree.lexemes]
    · simp [Tree.lexemesOf, Tree.lexemes, hs]
  · rcases side_of_follow? h hs with hs | hs
    · rw [Formula.sides_ofWord] at hs
      cases hs
    · exact List.mem_cons_of_mem _ hs
  · obtain ⟨f, hinner, hfollow⟩ := Option.bind_eq_some_iff.1 h
    rcases side_of_follow? hfollow hs with hs | hs
    · exact List.mem_append_left _ (side_of_inner? hinner hs)
    · exact List.mem_append_right _ hs
  · cases h

theorem side_of_follow? {ts : List Tree} {f : Formula} {r : Terms} (h : follow? ts f = some r)
    {s : String} (hs : s ∈ r.sides) :
    s ∈ f.sides ∨ .token (.operand s) ∈ Tree.lexemesOf ts := by
  cases ts with
  | nil =>
    obtain rfl := Option.some.inj h
    rw [Terms.sides, List.flatMap_nil, List.append_nil] at hs
    exact .inl hs
  | cons t ts =>
    cases t with
    | group us => cases h
    | leaf t =>
      cases t with
      | join c =>
        obtain ⟨r, hrest, rfl⟩ := Option.map_eq_some_iff.1 h
        rcases List.mem_append.1 hs with hs | hs
        · exact .inl hs
        · exact .inr (List.mem_cons_of_mem _ (side_of_terms? hrest hs))
      | _ => cases h

theorem side_of_inner? {t : Tree} {f : Formula} (h : t.inner? = some f) {s : String}
    (hs : s ∈ f.sides) : .token (.operand s) ∈ t.lexemes := by
  cases t with
  | leaf t => cases h
  | group ts =>
    obtain ⟨r, hterms, hclose⟩ := Option.bind_eq_some_iff.1 h
    rw [Terms.sides_of_close? hclose] at hs
    exact List.mem_cons_of_mem _ (List.mem_append_left _ (side_of_terms? hterms hs))

end

/-- **Only single words are compared.** -/
theorem Formula.word_of_read {e : String} {f : Formula} (h : read e = some f) {s : String}
    (hs : s ∈ f.sides) : Expr.IsWord s ∧ Expr.Closed s.toList := by
  obtain ⟨hclosed, h⟩ := Option.ite_none_right_eq_some.1 h
  obtain ⟨r, hterms, hclose⟩ := Option.bind_eq_some_iff.1 h
  obtain ⟨ts, htrees, hterms⟩ := Option.bind_eq_some_iff.1 hterms
  rw [Terms.sides_of_close? hclose] at hs
  have hmem : .token (.operand s) ∈ Tree.lexemesOf ts := side_of_terms? hterms hs
  rw [← Tree.eq_lexemesOf htrees] at hmem
  exact Expr.word_of_mem_lexemes hclosed hmem

end TraversalPlan

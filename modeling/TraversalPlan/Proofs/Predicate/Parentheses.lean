import TraversalPlan.Proofs.Expression.Negation
import TraversalPlan.Proofs.Predicate.Reading

/-!
# Parentheses of negations

A predicate is compound or not as a tree, and its text has a connective or not as a text. Negating the
tree asks for the one and negating the text for the other. For a compound predicate both put
parentheses. For any other they come to the same unless the text has a connective where it joins
nothing, and then only the text is put in parentheses. Outside of all parentheses and literals the text
has a connective just if the predicate is compound (**`Predicate.negate_flatten`**).

* `Expr.HasConnective`, `Expr.ConnectsOutside`: a text has a connective, or has one outside of all
  parentheses and literals.
* `Expr.Level`: the parentheses of a text are balanced, and it has no connective outside of some. It
  passes through literals (`Value.level_chars`) and through predicates (`Predicate.level_flatten`).
* `Predicate.exists_flatten_of_compound`: a compound predicate begins with a term and a connective.
* `Predicate.connective_cases`: where the connectives of a predicate that is not compound can stand.
-/

namespace TraversalPlan

open TraversalPlan.Expr

/-! ## Connectives in a text -/

theorem infix_of_infix_append_cons {α : Type} {w as bs : List α} {c : α}
    (h : w <:+: as ++ c :: bs) (hc : c ∉ w) : w <:+: as ∨ w <:+: bs := by
  have hbegins : ∀ as : List α, w <+: as ++ c :: bs → w <+: as := by
    intro as h
    rcases List.prefix_or_prefix_of_prefix h (List.prefix_append as (c :: bs)) with hw | ⟨u, rfl⟩
    · exact hw
    · rw [List.prefix_append_right_inj] at h
      cases u with
      | nil => simp
      | cons d u =>
        obtain ⟨rfl, -⟩ := List.cons_prefix_cons.1 h
        simp at hc
  induction as with
  | nil =>
    rcases List.infix_cons_iff.1 h with h | h
    · exact .inl (hbegins [] h).isInfix
    · exact .inr h
  | cons a as ih =>
    rcases List.infix_cons_iff.1 h with h | h
    · exact .inl (hbegins (a :: as) h).isInfix
    · exact (ih h).imp_left List.infix_cons

namespace Expr

/-- A connective is spelled somewhere in the text. -/
def HasConnective (e : String) : Prop := ∃ c, connectiveChars c <:+: e.toList

theorem mentionsConnective_iff {e : String} : mentionsConnective e = true ↔ HasConnective e := by
  rw [mentionsConnective, Bool.or_eq_true, occurs_iff, occurs_iff]
  constructor
  · rintro (h | h)
    · exact ⟨.and, h⟩
    · exact ⟨.or, h⟩
  · rintro ⟨_ | _, h⟩
    · exact .inl h
    · exact .inr h

/-- A connective does not reach over a blank. -/
theorem HasConnective.of_blank {l r : String} (h : HasConnective (l ++ " " ++ r)) :
    HasConnective l ∨ HasConnective r := by
  obtain ⟨c, hc⟩ := h
  have htext : (l ++ " " ++ r).toList = l.toList ++ ' ' :: r.toList := by simp
  rw [htext] at hc
  have hblank : ' ' ∉ connectiveChars c := by cases c <;> decide
  exact (infix_of_infix_append_cons hc hblank).imp (fun h => ⟨c, h⟩) fun h => ⟨c, h⟩

theorem HasConnective.of_bang {e : String} (h : HasConnective ("!" ++ e)) : HasConnective e := by
  obtain ⟨c, hc⟩ := h
  have htext : ("!" ++ e).toList = [] ++ '!' :: e.toList := by simp
  rw [htext] at hc
  have hbang : '!' ∉ connectiveChars c := by cases c <;> decide
  rcases infix_of_infix_append_cons hc hbang with h | h
  · cases c <;> exact absurd h (by decide)
  · exact ⟨c, h⟩

/-! ## Parentheses -/

namespace Place

/-- The place after a character, if parentheses are counted in place of brackets. -/
def enclose : Place → Char → Place
  | bare d, c =>
    if c = '"' then quoted d
    else if c = '(' then bare (d + 1)
    else if c = ')' then bare (d - 1)
    else bare d
  | p, c => p.after c

/-- The place after several characters. -/
def enclosed (p : Place) (cs : List Char) : Place := cs.foldl enclose p

@[simp]
theorem enclosed_nil (p : Place) : p.enclosed [] = p := rfl

@[simp]
theorem enclosed_cons (p : Place) (c : Char) (cs : List Char) :
    p.enclosed (c :: cs) = (p.enclose c).enclosed cs := rfl

@[simp]
theorem enclosed_append (p : Place) (as bs : List Char) :
    p.enclosed (as ++ bs) = (p.enclosed as).enclosed bs := List.foldl_append ..

end Place

/-- A connective stands outside of all parentheses and literals. -/
def ConnectsOutside (e : String) : Prop :=
  ∃ before c after, e.toList = before ++ connectiveChars c ++ after ∧
    Place.start.enclosed before = .start

/-- Outside of all parentheses and literals there is no character of a connective. -/
def Free : Place → List Char → Prop
  | _, [] => True
  | p, c :: cs => (p = .start → c ≠ '&' ∧ c ≠ '|') ∧ Free (p.enclose c) cs

theorem free_append {p : Place} {as bs : List Char} :
    Free p (as ++ bs) ↔ Free p as ∧ Free (p.enclosed as) bs := by
  induction as generalizing p with
  | nil => simp [Free]
  | cons a as ih => simp [Free, ih, and_assoc]

theorem ConnectsOutside.not_free {e : String} (h : ConnectsOutside e) : ¬ Free .start e.toList := by
  obtain ⟨before, c, after, htext, hplace⟩ := h
  intro hfree
  rw [htext, List.append_assoc, free_append, hplace] at hfree
  cases c <;> simp [connectiveChars, Free] at hfree

/-- The character is no quote, no parenthesis and no part of a connective. -/
def IsInert (c : Char) : Prop := c ∉ ['"', '(', ')', '&', '|']

instance : DecidablePred IsInert := fun c => inferInstanceAs (Decidable (c ∉ _))

/-- The text is without quotes, parentheses and characters of connectives. -/
def Inert (e : String) : Prop := ∀ c ∈ e.toList, IsInert c

/-- Inside a number of parentheses or more, the text goes back to where it began, and it has no
connective outside of all parentheses. -/
structure Level (n : Nat) (cs : List Char) : Prop where
  back : ∀ d, n ≤ d → (Place.bare d).enclosed cs = .bare d
  free : ∀ d, n ≤ d → Free (.bare d) cs

namespace Level

variable {n m : Nat} {as bs cs : List Char}

theorem nil : Level n [] := ⟨fun _ _ => rfl, fun _ _ => trivial⟩

theorem append (ha : Level n as) (hb : Level n bs) : Level n (as ++ bs) := by
  refine ⟨fun d hd => ?_, fun d hd => ?_⟩
  · rw [Place.enclosed_append, ha.back d hd, hb.back d hd]
  · rw [free_append, ha.back d hd]
    exact ⟨ha.free d hd, hb.free d hd⟩

theorem mono (h : Level n cs) (hle : n ≤ m) : Level m cs :=
  ⟨fun d hd => h.back d (Nat.le_trans hle hd), fun d hd => h.free d (Nat.le_trans hle hd)⟩

theorem singleton {c : Char} (h : IsInert c) : Level 0 [c] := by
  simp only [IsInert, List.mem_cons, not_or] at h
  refine ⟨fun d _ => ?_, fun d _ => ?_⟩
  · simp [Place.enclose, h]
  · simp [Free, h]

theorem of_inert (h : ∀ c ∈ cs, IsInert c) : Level 0 cs := by
  induction cs with
  | nil => exact nil
  | cons c cs ih =>
    obtain ⟨hc, hcs⟩ := List.forall_mem_cons.1 h
    exact (singleton hc).append (ih hcs)

theorem separator (c : Connective) : Level 1 (separator c).toList := by
  have hinside : ∀ d, 1 ≤ d → Place.bare d ≠ .start := by
    intro d hd h
    rw [Place.start, Place.bare.injEq] at h
    omega
  refine ⟨fun d _ => ?_, fun d hd => ?_⟩
  · cases c <;> simp [Expr.separator, Place.enclose]
  · cases c <;> simp [Expr.separator, Free, Place.enclose, hinside d hd]

/-- **Parentheses hide the connectives inside them.** -/
theorem parenthesised (h : Level 1 cs) : Level 0 ('(' :: cs ++ [')']) := by
  have hopen : ∀ d, (Place.bare d).enclose '(' = .bare (d + 1) := fun _ => rfl
  have hclose : ∀ d, (Place.bare (d + 1)).enclose ')' = .bare d := fun _ => rfl
  refine ⟨fun d _ => ?_, fun d _ => ?_⟩
  · rw [List.cons_append, Place.enclosed_cons, hopen, Place.enclosed_append,
      h.back (d + 1) (Nat.le_add_left 1 d), Place.enclosed_cons, hclose, Place.enclosed_nil]
  · rw [List.cons_append, Free, hopen, free_append, h.back (d + 1) (Nat.le_add_left 1 d)]
    refine ⟨fun _ => by decide, h.free (d + 1) (Nat.le_add_left 1 d), ?_⟩
    exact ⟨fun _ => by decide, trivial⟩

end Level
end Expr

/-! ## Literals -/

theorem IsNumeric.isInert {cs : List Char} (h : IsNumeric cs) : ∀ c ∈ cs, IsInert c := by
  intro c hc hmem
  have hnumber := h c hc
  simp only [List.mem_cons, List.not_mem_nil, or_false] at hmem
  rcases hmem with rfl | rfl | rfl | rfl | rfl <;> revert hnumber <;> decide

namespace Value

/-- Inside quotes nothing is a connective, and a quote of the string itself follows a backslash. -/
theorem level_quote (s : String) : Level 0 (quote s) := by
  have hchar : ∀ d c, (Place.quoted d).enclosed (quoteChar c) = .quoted d ∧
      Free (.quoted d) (quoteChar c) := by
    intro d c
    have hquoted : Place.quoted d ≠ .start := nofun
    have hescaped : Place.escaped d ≠ .start := nofun
    unfold quoteChar
    split
    · exact ⟨rfl, by simp [hquoted], by simp [Place.enclose, Place.after, hescaped], trivial⟩
    · rename_i hc
      rw [not_or] at hc
      refine ⟨?_, by simp [hquoted], trivial⟩
      simp [Place.enclose, Place.after, hc]
  have hbody : ∀ d (cs : List Char), (Place.quoted d).enclosed (cs.flatMap quoteChar) = .quoted d ∧
      Free (.quoted d) (cs.flatMap quoteChar) := by
    intro d cs
    induction cs with
    | nil => exact ⟨rfl, trivial⟩
    | cons c cs ih =>
      rw [List.flatMap_cons, Place.enclosed_append, free_append, (hchar d c).1]
      exact ⟨ih.1, (hchar d c).2, ih.2⟩
  have hopen : ∀ d, (Place.bare d).enclose '"' = .quoted d := fun _ => rfl
  refine ⟨fun d _ => ?_, fun d _ => ?_⟩
  · rw [quote, List.cons_append, Place.enclosed_cons, hopen, Place.enclosed_append, (hbody d _).1]
    rfl
  · rw [quote, List.cons_append, Free, hopen, free_append, (hbody d _).1]
    refine ⟨fun _ => by decide, (hbody d _).2, ?_⟩
    exact ⟨fun _ => by decide, trivial⟩

mutual

/-- **A literal has no connective outside of its strings**, and its parentheses stand inside them. -/
theorem level_chars (v : Value) : Level 0 v.chars := by
  cases v with
  | null => exact .of_inert (by simp [chars, IsInert])
  | bool b => cases b <;> exact .of_inert (by simp [chars, IsInert])
  | int i => exact .of_inert (Numeral.isNumeric_chars i.toInt).1.isInert
  | float x => exact .of_inert (Layout.isNumeric_write _ x).1.isInert
  | string s => exact level_quote s
  | list items =>
    have hopen : Level 0 ['['] := .singleton (by decide)
    have hclose : Level 0 [']'] := .singleton (by decide)
    exact (hopen.append (level_itemChars items)).append hclose

theorem level_itemChars (items : List Value) : Level 0 (itemChars items) := by
  match items with
  | [] => exact .nil
  | [v] => exact level_chars v
  | v :: w :: items =>
    have hcomma : Level 0 [',', ' '] := .of_inert (by simp [IsInert])
    exact (level_chars v).append (hcomma.append (level_itemChars (w :: items)))

end

end Value

/-! ## Predicates -/

namespace Predicate

variable {s : String}

theorem level_group {e : String} {compound : Bool} (h : Level (if compound then 1 else 0) e.toList) :
    Level 0 (group e compound).toList := by
  cases compound with
  | false => exact h
  | true =>
    have htext : (group e true).toList = '(' :: e.toList ++ [')'] := by simp [group]
    rw [htext]
    exact .parenthesised h

theorem level_intercalate (c : Connective) {es : List String} (h : ∀ e ∈ es, Level 0 e.toList) :
    Level 1 ((separator c).intercalate es).toList := by
  induction es with
  | nil => exact .nil
  | cons e es ih =>
    obtain ⟨he, hes⟩ := List.forall_mem_cons.1 h
    cases es with
    | nil =>
      rw [String.intercalate_singleton]
      exact he.mono (Nat.zero_le 1)
    | cons d es =>
      rw [String.intercalate_cons_cons, String.toList_append, String.toList_append]
      exact ((he.mono (Nat.zero_le 1)).append (.separator c)).append (ih hes)

mutual

/-- **Only a compound predicate has connectives outside of all parentheses.** -/
theorem level_flatten (p : Predicate) (hs : Inert s)
    (hp : ∀ e, .expr e ∈ p.operands → Inert e) :
    Level (if p.isCompound then 1 else 0) (p.flatten s).toList := by
  match p with
  | compare op operand =>
    have hsymbol : Level 0 (" " ++ op.symbol ++ " ").toList := by
      cases op <;> exact .of_inert (by simp [IsInert, CompareOp.symbol])
    have hoperand : Level 0 operand.text.toList := by
      cases operand with
      | literal v =>
        rw [Operand.text, Value.text, String.toList_ofList]
        exact v.level_chars
      | expr e => exact .of_inert (hp e List.mem_cons_self)
    have htext : (flatten s (compare op operand)).toList =
        s.toList ++ ((" " ++ op.symbol ++ " ").toList ++ operand.text.toList) := by
      simp [flatten]
    rw [htext]
    exact (Level.of_inert hs).append (hsymbol.append hoperand)
  | not p =>
    have hbang : Level 0 ['!'] := .singleton (by decide)
    have htext : (flatten s (not p)).toList = ['!'] ++ (group (flatten s p) p.isCompound).toList := by
      simp [flatten]
    rw [htext]
    exact hbang.append (level_group (level_flatten p hs hp))
  | all [] =>
    rw [flatten]
    exact .of_inert (by simp [IsInert])
  | all [p] =>
    rw [isCompound, flatten]
    exact level_flatten p hs fun e he => hp e (List.mem_append_left _ he)
  | all (p :: q :: ps) =>
    have hcompound : isCompound (all (p :: q :: ps)) = true := by simp [isCompound]
    rw [hcompound, if_pos rfl]
    exact level_intercalate .and (level_flattenEach (p :: q :: ps) hs hp)
  | any [] =>
    rw [flatten]
    exact .of_inert (by simp [IsInert])
  | any [p] =>
    rw [isCompound, flatten]
    exact level_flatten p hs fun e he => hp e (List.mem_append_left _ he)
  | any (p :: q :: ps) =>
    have hcompound : isCompound (any (p :: q :: ps)) = true := by simp [isCompound]
    rw [hcompound, if_pos rfl]
    exact level_intercalate .or (level_flattenEach (p :: q :: ps) hs hp)

theorem level_flattenEach (ps : List Predicate) (hs : Inert s)
    (hps : ∀ e, .expr e ∈ operandsOf ps → Inert e) :
    ∀ e ∈ flattenEach s ps, Level 0 e.toList := by
  match ps with
  | [] => exact nofun
  | p :: ps =>
    rw [flattenEach, List.forall_mem_cons]
    constructor
    · exact level_group (level_flatten p hs fun e he => hps e (List.mem_append_left _ he))
    · exact level_flattenEach ps hs fun e he => hps e (List.mem_append_right _ he)

end

/-- **A compound predicate begins with a term and a connective.** -/
theorem exists_flatten_of_compound : ∀ {p : Predicate}, p.isCompound = true →
    ∃ (q : Predicate) (c : Connective) (rest : String),
      p.flatten s = group (q.flatten s) q.isCompound ++ separator c ++ rest ∧
        q.operands ⊆ p.operands
  | all [p], h => by
    obtain ⟨q, c, rest, htext, hsub⟩ := exists_flatten_of_compound (p := p) h
    exact ⟨q, c, rest, htext, List.subset_append_of_subset_left _ hsub⟩
  | any [p], h => by
    obtain ⟨q, c, rest, htext, hsub⟩ := exists_flatten_of_compound (p := p) h
    exact ⟨q, c, rest, htext, List.subset_append_of_subset_left _ hsub⟩
  | all (p :: q :: ps), _ =>
    ⟨p, .and, _, String.intercalate_cons_cons, List.subset_append_left _ _⟩
  | any (p :: q :: ps), _ =>
    ⟨p, .or, _, String.intercalate_cons_cons, List.subset_append_left _ _⟩

theorem hasConnective_of_compound {p : Predicate} (h : p.isCompound = true) :
    HasConnective (p.flatten s) := by
  obtain ⟨q, c, rest, htext, -⟩ := exists_flatten_of_compound (s := s) h
  have hseparator : connectiveChars c <:+: (separator c).toList := by cases c <;> decide
  refine ⟨c, hseparator.trans ?_⟩
  rw [htext, String.toList_append, String.toList_append]
  exact ⟨_, _, rfl⟩

/-- **Outside of all parentheses and literals there is a connective just if the predicate is
compound.** -/
theorem connectsOutside_flatten_iff {p : Predicate} (hs : Inert s)
    (hp : ∀ e, .expr e ∈ p.operands → Inert e) :
    ConnectsOutside (p.flatten s) ↔ p.isCompound = true := by
  constructor
  · intro h
    by_contra hsimple
    have hlevel := level_flatten p hs hp
    rw [if_neg hsimple] at hlevel
    exact h.not_free (hlevel.free 0 (Nat.le_refl 0))
  · intro h
    obtain ⟨q, c, rest, htext, hsub⟩ := exists_flatten_of_compound (s := s) h
    have hfirst : Level 0 (group (q.flatten s) q.isCompound).toList :=
      level_group (level_flatten q hs fun e he => hp e (hsub he))
    have hseparator : (separator c).toList = ' ' :: (connectiveChars c ++ [' ']) := by cases c <;> rfl
    refine ⟨(group (q.flatten s) q.isCompound).toList ++ [' '], c, ' ' :: rest.toList, ?_, ?_⟩
    · rw [htext]
      simp [hseparator]
    · rw [Place.enclosed_append, Place.start, hfirst.back 0 (Nat.le_refl 0)]
      rfl

theorem bang_group (e : String) : "!" ++ group e true = "!(" ++ e ++ ")" := by
  rw [group, if_pos rfl, ← String.append_assoc, ← String.append_assoc]
  rfl

/-- **Where the connectives of a predicate can stand that is not compound**: in its subject, in what
this is compared with, or inside the parentheses of a negation. -/
theorem connective_cases : ∀ {p : Predicate}, p.isCompound = false → HasConnective (p.flatten s) →
    (∃ e ∈ s :: p.operands.map Operand.text, HasConnective e) ∨
      ∃ (q : Predicate) (before : String), q.isCompound = true ∧
        p.flatten s = before ++ "!(" ++ q.flatten s ++ ")"
  | compare op operand, _, h => by
    have hsymbol : ¬ HasConnective op.symbol := by
      rw [← mentionsConnective_iff]
      cases op <;> decide
    have hsides : HasConnective s ∨ HasConnective operand.text := by
      rw [flatten] at h
      rcases h.of_blank with h | h
      · exact .inl (h.of_blank.resolve_right hsymbol)
      · exact .inr h
    rcases hsides with h | h
    · exact .inl ⟨s, List.mem_cons_self, h⟩
    · exact .inl ⟨operand.text, by simp [operands], h⟩
  | not p, _, h => by
    cases hp : p.isCompound with
    | true =>
      refine .inr ⟨p, "", hp, ?_⟩
      rw [flatten, hp, bang_group, String.empty_append]
    | false =>
      rw [flatten, hp] at h
      rcases connective_cases hp h.of_bang with hplace | ⟨q, before, hq, htext⟩
      · exact .inl hplace
      · refine .inr ⟨q, "!" ++ before, hq, ?_⟩
        rw [flatten, hp, group, if_neg Bool.false_ne_true, htext]
        simp [String.append_assoc]
  | all [], _, h => by
    rw [flatten, ← mentionsConnective_iff] at h
    exact absurd h (by decide)
  | any [], _, h => by
    rw [flatten, ← mentionsConnective_iff] at h
    exact absurd h (by decide)
  | all [p], hp, h => by
    rw [operands, operandsOf, operandsOf, List.append_nil]
    exact connective_cases (p := p) hp h
  | any [p], hp, h => by
    rw [operands, operandsOf, operandsOf, List.append_nil]
    exact connective_cases (p := p) hp h
  | all (_ :: _ :: _), hp, _ => by simp [isCompound] at hp
  | any (_ :: _ :: _), hp, _ => by simp [isCompound] at hp

/-! ## Negations -/

theorem parentheses_ne (e : String) : "!(" ++ e ++ ")" ≠ "!" ++ e := by
  intro h
  have hlength := congrArg (fun text : String => text.toList.length) h
  simp only [String.toList_append, List.length_append] at hlength
  change 2 + _ + 1 = 1 + _ at hlength
  omega

/-- **Negating the text of a predicate and negating the predicate come to the same** if the predicate is
compound. If it is not, they do unless the text has a connective, in the subject, in what this is
compared with or inside a negation, and then only the text is put in parentheses. Outside of all
parentheses and literals the text has a connective just if the predicate is compound. -/
theorem negate_flatten (s : String) (p : Predicate) :
    (p.isCompound = true → Expr.negate (p.flatten s) = (not p).flatten s) ∧
      (p.isCompound = false →
        (not p).flatten s = "!" ++ p.flatten s ∧
        (Expr.negate (p.flatten s) = (not p).flatten s ↔ ¬ HasConnective (p.flatten s)) ∧
        (HasConnective (p.flatten s) →
          Expr.negate (p.flatten s) = "!(" ++ p.flatten s ++ ")" ∧
          ((∃ e ∈ s :: p.operands.map Operand.text, HasConnective e) ∨
            ∃ (q : Predicate) (before : String), q.isCompound = true ∧
              p.flatten s = before ++ "!(" ++ q.flatten s ++ ")"))) ∧
      (Inert s → (∀ e, .expr e ∈ p.operands → Inert e) →
        (p.isCompound = true ↔ ConnectsOutside (p.flatten s))) := by
  have hparentheses : HasConnective (p.flatten s) →
      Expr.negate (p.flatten s) = "!(" ++ p.flatten s ++ ")" := by
    intro h
    rw [Expr.negate, mentionsConnective_iff.2 h, bang_group]
  refine ⟨fun h => ?_, fun h => ?_, fun hs hp => (connectsOutside_flatten_iff hs hp).symm⟩
  · rw [hparentheses (hasConnective_of_compound h), flatten, h, bang_group]
  · have hplain : (not p).flatten s = "!" ++ p.flatten s := by
      rw [flatten, h]
      rfl
    refine ⟨hplain, ?_, fun hmentions => ⟨hparentheses hmentions, connective_cases h hmentions⟩⟩
    rw [hplain]
    constructor
    · intro heq hmentions
      rw [hparentheses hmentions] at heq
      exact parentheses_ne _ heq
    · intro hnone
      rw [Expr.negate, Bool.eq_false_iff.2 (mentionsConnective_iff.not.2 hnone)]
      rfl

/-- A literal that looks like the rest of a longer expression, and its negation. -/
theorem negate_flatten_quoting :
    Expr.negate (quoting.flatten "@a") = "!(@a == \"x) && y\" || @a > @b)" ∧
      quoting.negate.flatten "@a" = "!(@a == \"x) && y\" || @a > @b)" ∧
      ConnectsOutside (quoting.flatten "@a") ∧
      Expr.negate (quoting.negate.flatten "@a") = "!(!(@a == \"x) && y\" || @a > @b))" ∧
      quoting.negate.negate.flatten "@a" = "!!(@a == \"x) && y\" || @a > @b)" ∧
      ¬ ConnectsOutside (quoting.negate.flatten "@a") := by
  have htext : quoting.negate.flatten "@a" = "!(@a == \"x) && y\" || @a > @b)" := by decide
  have hinert : Inert "@a" := by simp [Inert, IsInert]
  have hoperands : ∀ e, .expr e ∈ quoting.operands → Inert e := by
    intro e he
    obtain rfl : e = "@b" := by simpa [quoting, eq, compareTo, operands, operandsOf] using he
    simp [Inert, IsInert]
  obtain ⟨hcompound, -, hinside⟩ := negate_flatten "@a" quoting
  obtain ⟨-, hsimple, houtside⟩ := negate_flatten "@a" quoting.negate
  obtain ⟨hplain, -, hconnective⟩ := hsimple rfl
  have hmentions : HasConnective (quoting.negate.flatten "@a") := by
    rw [htext, ← mentionsConnective_iff]
    decide
  refine ⟨(hcompound rfl).trans htext, htext, (hinside hinert hoperands).1 rfl, ?_, ?_, ?_⟩
  · rw [(hconnective hmentions).1, htext]
    decide
  · exact hplain.trans (by rw [htext]; decide)
  · intro h
    exact absurd ((houtside hinert hoperands).2 h) Bool.false_ne_true

end Predicate
end TraversalPlan

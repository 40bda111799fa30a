import TraversalPlan.Proofs.Expression.Operand

/-!
# Reading negations

A negation binds tighter than a connective, so a conjunction or disjunction has to stand in
parentheses to be negated as a whole. Parentheses are put where the text has `&&` or `||` in any
place. Such a place may be inside a literal, but a connective is never missed, and parentheses around
a single term do no harm: whatever a text reads as, its negation reads as the negation of that
(**`Formula.read_negate`**).

* `Expr.mentionsConnective_of_join`: a connective among the words of a text is seen.
* `Expr.exists_spells_of_read`: a text that is read spells some trees.
* `join_of_terms?`: only a connective adds terms.
-/

namespace TraversalPlan

/-! ## Connectives in a text -/

namespace Expr

theorem occurs_iff {part whole : List Char} : occurs part whole = true ↔ part <:+: whole := by
  induction whole with
  | nil => rw [occurs, List.isEmpty_iff, List.infix_nil]
  | cons c whole ih =>
    rw [occurs, Bool.or_eq_true, List.isPrefixOf_iff_prefix, ih, List.infix_cons_iff]

theorem infix_of_words {p : Place} {cs w : List Char} {ws : List (List Char)}
    (h : words p cs = w :: ws) : w <+: cs ∧ ∀ v ∈ ws, v <:+: cs := by
  induction cs generalizing p w ws with
  | nil =>
    obtain ⟨rfl, rfl⟩ := List.cons.inj h
    exact ⟨List.nil_prefix, fun v hv => absurd hv List.not_mem_nil⟩
  | cons c cs ih =>
    obtain ⟨v, vs, hv⟩ := List.exists_cons_of_ne_nil (words_ne_nil (p.after c) cs)
    obtain ⟨hfirst, hrest⟩ := ih hv
    have hinside : ∀ u, u <:+: cs → u <:+: c :: cs := fun u hu => List.infix_cons hu
    rw [words, hv] at h
    split at h
    · obtain ⟨rfl, rfl⟩ := List.cons.inj h
      refine ⟨List.nil_prefix, List.forall_mem_cons.2 ⟨?_, List.forall_mem_cons.2 ⟨?_, ?_⟩⟩⟩
      · exact ((List.prefix_append [c] cs).isInfix)
      · exact hinside v hfirst.isInfix
      · exact fun u hu => hinside u (hrest u hu)
    · obtain ⟨rfl, rfl⟩ := List.cons.inj h
      exact ⟨(List.prefix_cons_inj c).2 hfirst, fun u hu => hinside u (hrest u hu)⟩

theorem infix_of_mem_words {cs w : List Char} (h : w ∈ words .start cs) : w <:+: cs := by
  obtain ⟨v, vs, hv⟩ := List.exists_cons_of_ne_nil (words_ne_nil .start cs)
  obtain ⟨hfirst, hrest⟩ := infix_of_words hv
  rw [hv] at h
  rcases List.mem_cons.1 h with rfl | h
  · exact hfirst.isInfix
  · exact hrest w h

/-- The spelling of a connective. -/
def connectiveChars : Connective → List Char
  | .and => ['&', '&']
  | .or => ['|', '|']

theorem eq_of_join_mem_lexeme {w : List Char} {c : Connective} (h : .token (.join c) ∈ lexeme w) :
    w = connectiveChars c := by
  unfold lexeme at h
  split at h
  case h_4 =>
    obtain rfl : c = .and := by simpa using h
    rfl
  case h_5 =>
    obtain rfl : c = .or := by simpa using h
    rfl
  case h_6 => split at h <;> simp at h
  all_goals simp at h

theorem suffix_of_join_mem_wordLexemes {w : List Char} {c : Connective}
    (h : .token (.join c) ∈ wordLexemes w) : connectiveChars c <:+ w := by
  induction w with
  | nil => cases h
  | cons a w ih =>
    rw [wordLexemes] at h
    split at h
    · rcases List.mem_cons.1 h with h | h
      · cases h
      · exact (ih h).trans (List.suffix_cons a w)
    · rw [eq_of_join_mem_lexeme h]

/-- **A connective of the text is seen** when the text is negated. -/
theorem mentionsConnective_of_join {e : String} {c : Connective}
    (h : .token (.join c) ∈ lexemes e.toList) : mentionsConnective e = true := by
  obtain ⟨w, hw, hc⟩ := List.mem_flatMap.1 h
  have hinfix : connectiveChars c <:+: e.toList :=
    (suffix_of_join_mem_wordLexemes hc).isInfix.trans (infix_of_mem_words hw)
  rw [mentionsConnective, Bool.or_eq_true, occurs_iff, occurs_iff]
  cases c with
  | and => exact .inl hinfix
  | or => exact .inr hinfix

end Expr

/-! ## Texts that are read -/

namespace Tree

theorem mem_lexemesOf {t : Token} {ts : List Tree} (h : leaf t ∈ ts) : .token t ∈ lexemesOf ts := by
  induction ts with
  | nil => cases h
  | cons u ts ih =>
    rw [lexemesOf]
    rcases List.mem_cons.1 h with rfl | h
    · exact List.mem_append_left _ List.mem_cons_self
    · exact List.mem_append_right _ (ih h)

end Tree

namespace Expr

variable {e : String} {ts : List Tree} {r : Terms} {f : Formula}

theorem exists_spells_of_read (he : Negatable e) (h : Formula.read e = some f) :
    ∃ ts r, Spells e ts ∧ terms? ts = some r ∧ r.close? = some f := by
  obtain ⟨hclosed, h⟩ := Option.ite_none_right_eq_some.1 h
  obtain ⟨r, hterms, hclose⟩ := Option.bind_eq_some_iff.1 h
  obtain ⟨ts, htrees, hterms⟩ := Option.bind_eq_some_iff.1 hterms
  exact ⟨ts, r, ⟨hclosed, Tree.eq_lexemesOf htrees, he⟩, hterms, hclose⟩

theorem Spells.read_of_terms? (h : Spells e ts) (hterms : terms? ts = some r)
    (hclose : r.close? = some f) : Formula.read e = some f := by
  rw [Formula.read, if_pos h.closed, h.words, Tree.ofLexemes?_lexemesOf, Option.bind_some, hterms,
    Option.bind_some, hclose]

end Expr

/-! ## Negations -/

/-- There are further terms only after a connective. -/
theorem join_of_follow? {ts : List Tree} {f : Formula} {r : Terms} (h : follow? ts f = some r)
    (hmore : r.more ≠ []) : ∃ c, Tree.leaf (.join c) ∈ ts := by
  cases ts with
  | nil =>
    obtain rfl := Option.some.inj h
    exact absurd rfl hmore
  | cons t ts =>
    cases t with
    | group us => cases h
    | leaf t =>
      cases t with
      | join c => exact ⟨c, List.mem_cons_self⟩
      | _ => cases h

theorem join_of_terms? {ts : List Tree} {r : Terms} (h : terms? ts = some r)
    (hmore : r.more ≠ []) : ∃ c, Tree.leaf (.join c) ∈ ts := by
  induction ts generalizing r with
  | nil => cases h
  | cons t ts ih =>
    rw [terms?.eq_def] at h
    split at h
    · rename_i us htrees
      obtain ⟨rfl, rfl⟩ := List.cons.inj htrees
      obtain ⟨s, hs, rfl⟩ := Option.map_eq_some_iff.1 h
      exact (ih hs hmore).imp fun c => List.mem_cons_of_mem _
    · rename_i htrees
      obtain ⟨rfl, rfl⟩ := List.cons.inj htrees
      exact (join_of_follow? h hmore).imp fun c hc => by simp [hc]
    · rename_i htrees
      obtain ⟨rfl, rfl⟩ := List.cons.inj htrees
      exact (join_of_follow? h hmore).imp fun c => List.mem_cons_of_mem _
    · rename_i htrees
      obtain ⟨rfl, rfl⟩ := List.cons.inj htrees
      obtain ⟨f, -, hfollow⟩ := Option.bind_eq_some_iff.1 h
      exact (join_of_follow? hfollow hmore).imp fun c => List.mem_cons_of_mem _
    · cases h

/-- **The negation of a text reads as the negation of the whole text.** -/
theorem Formula.read_negate {e : String} {f : Formula} (he : Expr.Negatable e)
    (h : read e = some f) : read (Expr.negate e) = some (.not f) := by
  obtain ⟨ts, r, hspells, hterms, hclose⟩ := Expr.exists_spells_of_read he h
  rw [Expr.negate, Expr.group]
  by_cases hconnective : Expr.mentionsConnective e = true
  · -- what stands in parentheses is one term
    have hgroup : terms? [.group ts] = some ⟨f, []⟩ := by
      rw [terms?_group, Tree.inner?, hterms, Option.bind_some, hclose]
      rfl
    have hbang : terms? [.leaf .bang, .group ts] = some ⟨.not f, []⟩ := by
      rw [terms?, hgroup]
      rfl
    rw [if_pos hconnective]
    exact hspells.group.negate.read_of_terms? hbang rfl
  · have hone : r.more = [] := by
      by_contra hmore
      obtain ⟨c, hc⟩ := join_of_terms? hterms hmore
      have hword := Tree.mem_lexemesOf hc
      rw [← hspells.words] at hword
      exact hconnective (Expr.mentionsConnective_of_join hword)
    have hfirst : r.first = f := by
      obtain ⟨first, more⟩ := r
      obtain rfl : more = [] := hone
      exact Option.some.inj hclose
    have hbang : terms? (.leaf .bang :: ts) = some ⟨.not f, []⟩ := by
      rw [terms?, hterms, Option.map_some, Terms.negateFirst, hone, hfirst]
    rw [if_neg hconnective]
    exact hspells.negate.read_of_terms? hbang rfl

end TraversalPlan

import TraversalPlan.Predicate.Document

/-!
# Words of expressions

An expression is read word by word. A blank or a parenthesis ends a word, unless it stands inside a
quoted literal or between brackets; exclamation marks at the beginning of a word are negations.

* `Expr.lexemes`: the words of a text, each with what it stands for.
* `Expr.Closed`: a text in which every quote and every bracket is closed.
* `lexemes_append_blank`, `lexemes_append_closing`, `lexemes_bang`: a text is read piece by piece.
* **`word_of_mem_lexemes`**: an operand is a word on its own.
* `Expr.IsOperand`: a text that is one operand wherever it stands; `IsReference.isOperand`.
-/

namespace TraversalPlan

/-! ## Vocabulary -/

inductive Connective where
  | and
  | or
deriving DecidableEq, Repr

/-- A word that is not a parenthesis. -/
inductive Token where
  | bang
  | join (c : Connective)
  | op (o : CompareOp)
  | operand (e : String)
deriving DecidableEq, Repr

inductive Lexeme where
  | opening
  | closing
  | token (t : Token)
deriving DecidableEq, Repr

namespace CompareOp

/-- The operator with a spelling. -/
def ofSymbol? (w : List Char) : Option CompareOp := all.find? fun o => o.symbol.toList == w

end CompareOp

namespace Expr

/-! ## Places -/

/-- Whether a text has come to stand outside or inside of a quoted literal, or after a backslash
there, and how many brackets are open. -/
inductive Place where
  | bare (depth : Nat)
  | quoted (depth : Nat)
  | escaped (depth : Nat)
deriving DecidableEq

namespace Place

def start : Place := bare 0

def after : Place → Char → Place
  | bare d, c =>
    if c = '"' then quoted d
    else if c = '[' then bare (d + 1)
    else if c = ']' then bare (d - 1)
    else bare d
  | quoted d, c => if c = '"' then bare d else if c = '\\' then escaped d else quoted d
  | escaped d, _ => quoted d

/-- The place after several characters. -/
def along (p : Place) (cs : List Char) : Place := cs.foldl after p

/-- The character ends a word. -/
def breaks (p : Place) (c : Char) : Bool := p == start && (c == ' ' || c == '(' || c == ')')

theorem breaks_iff {p : Place} {c : Char} :
    p.breaks c ↔ p = start ∧ (c = ' ' ∨ c = '(' ∨ c = ')') := by
  simp [breaks, or_assoc]

@[simp]
theorem along_nil (p : Place) : p.along [] = p := rfl

@[simp]
theorem along_cons (p : Place) (c : Char) (cs : List Char) :
    p.along (c :: cs) = (p.after c).along cs := rfl

@[simp]
theorem along_append (p : Place) (as bs : List Char) :
    p.along (as ++ bs) = (p.along as).along bs := List.foldl_append ..

end Place

/-! ## Words -/

/-- The words of a text that goes on at a place; what ends a word is a word of its own. -/
def words : Place → List Char → List (List Char)
  | _, [] => [[]]
  | p, c :: cs =>
    if p.breaks c then [] :: [c] :: words (p.after c) cs
    else (words (p.after c) cs).modifyHead (c :: ·)

/-- What a word without negations stands for. -/
def lexeme : List Char → List Lexeme
  | [' '] => []
  | ['('] => [.opening]
  | [')'] => [.closing]
  | ['&', '&'] => [.token (.join .and)]
  | ['|', '|'] => [.token (.join .or)]
  | w =>
    match CompareOp.ofSymbol? w with
    | some o => [.token (.op o)]
    | none => [.token (.operand (String.ofList w))]

/-- What a word stands for. -/
def wordLexemes : List Char → List Lexeme
  | [] => []
  | c :: cs =>
    if c = '!' ∧ cs ≠ ['='] then .token .bang :: wordLexemes cs else lexeme (c :: cs)

def lexemes (cs : List Char) : List Lexeme := (words .start cs).flatMap wordLexemes

theorem words_ne_nil (p : Place) (cs : List Char) : words p cs ≠ [] := by
  induction cs generalizing p with
  | nil => exact List.cons_ne_nil _ _
  | cons c cs ih =>
    rw [words]
    split
    · exact List.cons_ne_nil _ _
    · rw [ne_eq, List.modifyHead_eq_nil_iff]
      exact ih _

/-- Every quote and every bracket is closed. -/
def Closed (cs : List Char) : Prop := Place.start.along cs = .start

instance (cs : List Char) : Decidable (Closed cs) := inferInstanceAs (Decidable (_ = _))

theorem Closed.append {as bs : List Char} (ha : Closed as) (hb : Closed bs) :
    Closed (as ++ bs) := by
  rw [Closed, Place.along_append, ha]
  exact hb

/-! ## Reading piece by piece -/

theorem words_append {p : Place} {as : List Char} (hp : p.along as = .start) {c : Char}
    (hc : Place.start.breaks c) (cs : List Char) :
    words p (as ++ c :: cs) = words p as ++ [c] :: words (Place.start.after c) cs := by
  induction as generalizing p with
  | nil =>
    rw [Place.along_nil] at hp
    subst hp
    simp [words, hc]
  | cons a as ih =>
    have hrest := ih (p := p.after a) hp
    rw [List.cons_append, words, words, hrest]
    split
    · rfl
    · obtain ⟨w, ws, hw⟩ := List.exists_cons_of_ne_nil (words_ne_nil (p.after a) as)
      rw [hw]
      rfl

theorem lexemes_append_blank {as : List Char} (h : Closed as) (cs : List Char) :
    lexemes (as ++ ' ' :: cs) = lexemes as ++ lexemes cs := by
  have hwords := words_append h (c := ' ') (by decide) cs
  rw [lexemes, hwords, List.flatMap_append, List.flatMap_cons]
  rfl

theorem lexemes_append_closing {as : List Char} (h : Closed as) (cs : List Char) :
    lexemes (as ++ ')' :: cs) = lexemes as ++ .closing :: lexemes cs := by
  have hwords := words_append h (c := ')') (by decide) cs
  rw [lexemes, hwords, List.flatMap_append, List.flatMap_cons]
  rfl

theorem lexemes_opening (cs : List Char) : lexemes ('(' :: cs) = .opening :: lexemes cs := by
  have hwords := words_append (Place.along_nil .start) (c := '(') (by decide) cs
  rw [List.nil_append] at hwords
  rw [lexemes, hwords, List.flatMap_append, List.flatMap_cons]
  rfl

/-- The first word begins like the text. -/
theorem head?_words {p : Place} {cs w : List Char} {ws : List (List Char)}
    (h : words p cs = w :: ws) : w = [] ∨ w.head? = cs.head? := by
  cases cs with
  | nil =>
    obtain ⟨rfl, -⟩ := List.cons.inj h
    exact .inl rfl
  | cons c cs =>
    rw [words] at h
    split at h
    · obtain ⟨rfl, -⟩ := List.cons.inj h
      exact .inl rfl
    · obtain ⟨v, vs, hv⟩ := List.exists_cons_of_ne_nil (words_ne_nil (p.after c) cs)
      rw [hv] at h
      obtain ⟨rfl, -⟩ := List.cons.inj h
      exact .inr rfl

theorem lexemes_bang {cs : List Char} (h : cs.head? ≠ some '=') :
    lexemes ('!' :: cs) = .token .bang :: lexemes cs := by
  obtain ⟨w, ws, hw⟩ := List.exists_cons_of_ne_nil (words_ne_nil .start cs)
  have hne : w ≠ ['='] := by
    rintro rfl
    rcases head?_words hw with hnil | hhead
    · cases hnil
    · exact h hhead.symm
  have hbang : words .start ('!' :: cs) = ('!' :: w) :: ws := by
    have : words .start ('!' :: cs) = (words .start cs).modifyHead ('!' :: ·) := rfl
    rw [this, hw]
    rfl
  rw [lexemes, lexemes, hbang, hw, List.flatMap_cons, List.flatMap_cons, wordLexemes,
    if_pos ⟨rfl, hne⟩]
  rfl

/-! ## Texts of one word -/

/-- No character ends a word. -/
def Unbroken : Place → List Char → Prop
  | _, [] => True
  | p, c :: cs => p.breaks c = false ∧ Unbroken (p.after c) cs

theorem Unbroken.append {p : Place} {as bs : List Char} (ha : Unbroken p as)
    (hb : Unbroken (p.along as) bs) : Unbroken p (as ++ bs) := by
  induction as generalizing p with
  | nil => exact hb
  | cons a as ih => exact ⟨ha.1, ih ha.2 hb⟩

theorem words_eq_singleton {p : Place} {cs : List Char} (h : Unbroken p cs) :
    words p cs = [cs] := by
  induction cs generalizing p with
  | nil => rfl
  | cons c cs ih => rw [words, if_neg (by simp [h.1]), ih h.2, List.modifyHead_cons]

theorem lexemes_of_unbroken {cs : List Char} (h : Unbroken .start cs) :
    lexemes cs = wordLexemes cs := by
  rw [lexemes, words_eq_singleton h, List.flatMap_singleton]

/-- In a text that comes back to where words begin and end, so does every word: the first one, and
any other unless it is what ends a word. -/
theorem unbroken_of_words {p : Place} {cs w : List Char} {ws : List (List Char)}
    (hp : p.along cs = .start) (h : words p cs = w :: ws) :
    (Unbroken p w ∧ p.along w = .start) ∧
      ∀ v ∈ ws, (∃ c, Place.start.breaks c ∧ v = [c]) ∨ Unbroken .start v ∧ Closed v := by
  induction cs generalizing p w ws with
  | nil =>
    obtain ⟨rfl, rfl⟩ := List.cons.inj h
    exact ⟨⟨trivial, hp⟩, fun v hv => absurd hv List.not_mem_nil⟩
  | cons c cs ih =>
    obtain ⟨v, vs, hv⟩ := List.exists_cons_of_ne_nil (words_ne_nil (p.after c) cs)
    obtain ⟨hfirst, hrest⟩ := ih hp hv
    rw [words, hv] at h
    split at h
    · rename_i hc
      obtain ⟨rfl, hchar⟩ := Place.breaks_iff.1 hc
      have hafter : Place.start.after c = .start := by
        rcases hchar with rfl | rfl | rfl <;> rfl
      obtain ⟨rfl, rfl⟩ := List.cons.inj h
      refine ⟨⟨trivial, rfl⟩, fun u hu => ?_⟩
      rcases List.mem_cons.1 hu with rfl | hu
      · exact .inl ⟨c, hc, rfl⟩
      rcases List.mem_cons.1 hu with rfl | hu
      · rw [hafter] at hfirst
        exact .inr hfirst
      · exact hrest u hu
    · rename_i hc
      obtain ⟨rfl, rfl⟩ := List.cons.inj h
      exact ⟨⟨⟨Bool.not_eq_true _ ▸ hc, hfirst.1⟩, hfirst.2⟩, hrest⟩

/-- The text is a single operand. -/
def IsWord (e : String) : Prop := lexemes e.toList = [.token (.operand e)]

instance (e : String) : Decidable (IsWord e) := inferInstanceAs (Decidable (_ = _))

theorem lexeme_of_operand_mem {w : List Char} {e : String}
    (h : .token (.operand e) ∈ lexeme w) :
    lexeme w = [.token (.operand e)] ∧ w = e.toList := by
  unfold lexeme at h ⊢
  split at h <;> try simp at h
  split at h <;> simp at h
  subst h
  simp_all

theorem word_of_mem_wordLexemes {w : List Char} {e : String} (hw : Unbroken .start w)
    (hclosed : Closed w) (h : .token (.operand e) ∈ wordLexemes w) :
    IsWord e ∧ Closed e.toList := by
  induction w with
  | nil => cases h
  | cons c cs ih =>
    have hself := lexemes_of_unbroken hw
    rw [wordLexemes] at h hself
    split at h
    · rename_i hc
      obtain ⟨rfl, -⟩ := hc
      rcases List.mem_cons.1 h with h | h
      · cases h
      · exact ih hw.2 hclosed h
    · rename_i hc
      obtain ⟨hone, htext⟩ := lexeme_of_operand_mem h
      rw [if_neg hc, hone] at hself
      rw [IsWord, ← htext]
      exact ⟨hself, hclosed⟩

/-- **An operand of a text is a word on its own.** -/
theorem word_of_mem_lexemes {cs : List Char} {e : String} (hcs : Closed cs)
    (h : .token (.operand e) ∈ lexemes cs) : IsWord e ∧ Closed e.toList := by
  obtain ⟨v, hv, he⟩ := List.mem_flatMap.1 h
  obtain ⟨w, ws, hw⟩ := List.exists_cons_of_ne_nil (words_ne_nil .start cs)
  obtain ⟨hfirst, hrest⟩ := unbroken_of_words hcs hw
  rw [hw] at hv
  rcases List.mem_cons.1 hv with rfl | hv
  · exact word_of_mem_wordLexemes hfirst.1 hfirst.2 he
  rcases hrest v hv with ⟨c, hc, rfl⟩ | ⟨hunbroken, hclosed⟩
  · obtain ⟨-, rfl | rfl | rfl⟩ := Place.breaks_iff.1 hc <;> simp [wordLexemes, lexeme] at he
  · exact word_of_mem_wordLexemes hunbroken hclosed he

/-! ## Operands -/

/-- The words with a meaning of their own. -/
def keywords : List (List Char) :=
  [[' '], ['('], [')'], ['&', '&'], ['|', '|']] ++ CompareOp.all.map fun o => o.symbol.toList

theorem lexeme_eq_operand {w : List Char} (hw : w ∉ keywords) :
    lexeme w = [.token (.operand (String.ofList w))] := by
  have hsymbol : CompareOp.ofSymbol? w = none := by
    rw [CompareOp.ofSymbol?, List.find?_eq_none]
    intro o ho hsame
    exact hw (List.mem_append_right _ (List.mem_map.2 ⟨o, ho, beq_iff_eq.1 hsame⟩))
  unfold lexeme
  split
  case h_6 => rw [hsymbol]
  all_goals exact absurd (by decide) hw

/-- The text is read through without ending a word, and back to where it began. -/
structure Stays (p : Place) (cs : List Char) : Prop where
  unbroken : Unbroken p cs
  along : p.along cs = p

theorem Stays.nil (p : Place) : Stays p [] := ⟨trivial, rfl⟩

theorem Stays.append {p : Place} {as bs : List Char} (ha : Stays p as) (hb : Stays p bs) :
    Stays p (as ++ bs) := by
  refine ⟨ha.unbroken.append (by rw [ha.along]; exact hb.unbroken), ?_⟩
  rw [Place.along_append, ha.along, hb.along]

/-- The character neither ends a word nor opens or closes anything. -/
def IsPlain (c : Char) : Prop := c ∉ [' ', '(', ')', '"', '[', ']']

instance : DecidablePred IsPlain := fun c => inferInstanceAs (Decidable (c ∉ _))

theorem IsPlain.after {c : Char} (h : IsPlain c) (d : Nat) : (Place.bare d).after c = .bare d := by
  simp only [IsPlain, List.mem_cons, not_or] at h
  simp [Place.after, h]

theorem IsPlain.breaks {c : Char} (h : IsPlain c) (p : Place) : p.breaks c = false := by
  simp only [IsPlain, List.mem_cons, not_or] at h
  simp [Place.breaks, h]

theorem Stays.of_plain {cs : List Char} (h : ∀ c ∈ cs, IsPlain c) (d : Nat) :
    Stays (.bare d) cs := by
  induction cs with
  | nil => exact .nil _
  | cons c cs ih =>
    have hc := h c List.mem_cons_self
    have hcs := ih fun x hx => h x (List.mem_cons_of_mem c hx)
    refine ⟨⟨hc.breaks _, ?_⟩, ?_⟩
    · rw [hc.after]
      exact hcs.unbroken
    · rw [Place.along_cons, hc.after, hcs.along]

/-- The text and an exclamation mark before it do not spell an operator. -/
def Negatable (e : String) : Prop := ∃ c cs, e.toList = c :: cs ∧ c ≠ '='

theorem Negatable.append {e : String} (h : Negatable e) (d : String) : Negatable (e ++ d) := by
  obtain ⟨c, cs, he, hc⟩ := h
  exact ⟨c, cs ++ d.toList, by simp [he], hc⟩

theorem Negatable.head?_ne {e : String} (h : Negatable e) : e.toList.head? ≠ some '=' := by
  obtain ⟨c, cs, he, hc⟩ := h
  rw [he]
  exact fun heq => hc (Option.some.inj heq)

/-- The text is a single operand wherever it stands. -/
structure IsOperand (e : String) : Prop where
  closed : Closed e.toList
  word : IsWord e
  negatable : Negatable e

/-- **A text that is read through is an operand** unless it is a keyword or begins with a
negation. -/
theorem IsOperand.of_stays {c : Char} {cs : List Char} (h : Stays .start (c :: cs))
    (hc : c ≠ '!' ∧ c ≠ '=') (hw : c :: cs ∉ keywords) : IsOperand (String.ofList (c :: cs)) := by
  refine ⟨?_, ?_, ?_⟩
  · rw [String.toList_ofList]
    exact h.along
  · rw [IsWord, String.toList_ofList, lexemes_of_unbroken h.unbroken, wordLexemes,
      if_neg fun hbang => hc.1 hbang.1, lexeme_eq_operand hw]
  · exact ⟨c, cs, String.toList_ofList, hc.2⟩

/-- **What begins with `@` is an operand** if nothing in it ends a word. -/
theorem IsOperand.of_plain {cs : List Char} (h : ∀ c ∈ cs, IsPlain c) :
    IsOperand (String.ofList ('@' :: cs)) := by
  have hplain : ∀ c ∈ '@' :: cs, IsPlain c := List.forall_mem_cons.2 ⟨by decide, h⟩
  have hkeyword : '@' :: cs ∉ keywords := fun hmem =>
    (by decide : ∀ k ∈ keywords, '@' ∉ k) _ hmem List.mem_cons_self
  exact .of_stays (.of_plain hplain 0) (by decide) hkeyword

/-- A reference to a column: `@` and characters without a meaning in expressions. -/
def IsReference (e : String) : Prop :=
  ∃ cs, e.toList = '@' :: cs ∧ ∀ c ∈ cs, c ∉ [' ', '"', '(', ')', '[', ']', ',', '&', '|', '!']

theorem IsReference.isOperand {e : String} (h : IsReference e) : IsOperand e := by
  obtain ⟨cs, htext, hcs⟩ := h
  have hplain : ∀ c ∈ cs, IsPlain c := by
    intro c hc hmem
    have hfree := hcs c hc
    simp only [List.mem_cons, not_or] at hfree
    simp [hfree] at hmem
  rw [← String.ofList_toList (s := e), htext]
  exact .of_plain hplain

end Expr
end TraversalPlan

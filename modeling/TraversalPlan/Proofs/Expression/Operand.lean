import TraversalPlan.Proofs.Expression.Chain
import TraversalPlan.Proofs.Predicate.Reading

/-!
# Expressions of plain names

Where tags and property keys have no characters with a meaning in expressions, a record and a property
are written as a single operand. A test is in general written as several words.

* `Traversal.names`, `Traversal.operands`: the tags and property keys of a traversal at all depths, and
  what its filters compare with.
* `Cursor.IsPlain`: what a cursor stands for has plain names; `isPlain_of_run?`: moves keep that.
* `Traversal.Denotes`: the cursor behind an extracted expression (**`exists_denotes_of_single?`**),
  which the traversal reaches by moves of its own (`Denotes.exists_moves`).
* `isOperand_value`, `IsPlain.negatable_expr`: how the expression of a plain cursor is read.
-/

namespace TraversalPlan

open TraversalPlan.Expr

/-! ## Names -/

def HasTest.names : HasTest → List String
  | key k => [k]
  | keyValue k _ => [k]
  | keyPredicate k _ => [k]
  | labelKeyValue _ k _ => [k]

def ElementaryStep.names : ElementaryStep → List String
  | has t => t.names
  | values key => [key]
  | _ => []

mutual

/-- The tags and property keys of a traversal and of those inside it. -/
def Traversal.names : Traversal → List String
  | ⟨steps⟩ => stepsNames steps

def stepsNames : List Step → List String
  | [] => []
  | s :: rest => Step.names s ++ stepsNames rest

def Step.names : Step → List String
  | ⟨.elementary s, _⟩ => s.names
  | ⟨.modulated m, _⟩ => ModulatedStep.names m

def ModulatedStep.names : ModulatedStep → List String
  | .select ⟨keys, bys⟩ => keys ++ traversalsNames bys
  | .dedup ⟨keys, none⟩ => keys
  | .dedup ⟨keys, some t⟩ => keys ++ Traversal.names t
  | .sample ⟨_, _, none⟩ => []
  | .sample ⟨_, _, some t⟩ => Traversal.names t
  | .order ⟨comparators⟩ => comparatorsNames comparators
  | .group ⟨keys, values, _⟩ => traversalsNames keys ++ traversalsNames values
  | .wherePredicate ⟨startKey, _, selectKeys, bys⟩ =>
    startKey.toList ++ selectKeys ++ traversalsNames bys
  | .whereTraversal t => Traversal.names t
  | .not t => Traversal.names t

def traversalsNames : List Traversal → List String
  | [] => []
  | t :: rest => Traversal.names t ++ traversalsNames rest

def comparatorsNames : List Comparator → List String
  | [] => []
  | ⟨t, _⟩ :: rest => Traversal.names t ++ comparatorsNames rest

end

theorem names_subset_traversalsNames {t : Traversal} : ∀ {ts : List Traversal}, t ∈ ts →
    t.names ⊆ traversalsNames ts
  | t' :: rest, h => by
    rw [traversalsNames]
    rcases List.mem_cons.1 h with rfl | h
    · exact List.subset_append_left _ _
    · exact List.subset_append_of_subset_right _ (names_subset_traversalsNames h)

/-! ## Operands -/

/-- What the predicates of the test compare with. -/
def HasTest.operands : HasTest → List Operand
  | keyPredicate _ p => p.operands
  | _ => []

def ElementaryStep.operands : ElementaryStep → List Operand
  | has t => t.operands
  | is p => p.operands
  | _ => []

mutual

/-- What the predicates of the filters of a traversal compare with, and of those inside it. Those of
a `where` are left out: it compares with the records of its select keys. -/
def Traversal.operands : Traversal → List Operand
  | ⟨steps⟩ => stepsOperands steps

def stepsOperands : List Step → List Operand
  | [] => []
  | s :: rest => Step.operands s ++ stepsOperands rest

def Step.operands : Step → List Operand
  | ⟨.elementary s, _⟩ => s.operands
  | ⟨.modulated m, _⟩ => ModulatedStep.operands m

def ModulatedStep.operands : ModulatedStep → List Operand
  | .select ⟨_, bys⟩ => traversalsOperands bys
  | .dedup ⟨_, none⟩ => []
  | .dedup ⟨_, some t⟩ => Traversal.operands t
  | .sample ⟨_, _, none⟩ => []
  | .sample ⟨_, _, some t⟩ => Traversal.operands t
  | .order ⟨comparators⟩ => comparatorsOperands comparators
  | .group ⟨keys, values, _⟩ => traversalsOperands keys ++ traversalsOperands values
  | .wherePredicate ⟨_, _, _, bys⟩ => traversalsOperands bys
  | .whereTraversal t => Traversal.operands t
  | .not t => Traversal.operands t

def traversalsOperands : List Traversal → List Operand
  | [] => []
  | t :: rest => Traversal.operands t ++ traversalsOperands rest

def comparatorsOperands : List Comparator → List Operand
  | [] => []
  | ⟨t, _⟩ :: rest => Traversal.operands t ++ comparatorsOperands rest

end

theorem operands_subset_traversalsOperands {t : Traversal} : ∀ {ts : List Traversal}, t ∈ ts →
    t.operands ⊆ traversalsOperands ts
  | t' :: rest, h => by
    rw [traversalsOperands]
    rcases List.mem_cons.1 h with rfl | h
    · exact List.subset_append_left _ _
    · exact List.subset_append_of_subset_right _ (operands_subset_traversalsOperands h)

/-! ## Chains -/

def Move.names : Move → List String
  | restart tag => [tag]
  | step s => s.names

def Move.operands : Move → List Operand
  | restart _ => []
  | step s => s.operands

/-- What the moves of a chain hold is held by its steps. -/
theorem subset_of_moves? {α : Type} {ofMove : Move → List α} {ofSteps : List Step → List α}
    (hstep : ∀ s l rest, ofMove (.step s) ⊆ ofSteps (⟨.elementary s, l⟩ :: rest))
    (hrestart : ∀ key bys l rest, ofMove (.restart key) ⊆
      ofSteps (⟨.modulated (.select ⟨[key], bys⟩), l⟩ :: rest))
    (hby : ∀ key steps bys l rest, ofSteps steps ⊆
      ofSteps (⟨.modulated (.select ⟨[key], ⟨steps⟩ :: bys⟩), l⟩ :: rest))
    (hrest : ∀ s rest, ofSteps rest ⊆ ofSteps (s :: rest))
    {steps : List Step} {ms : List Move} (h : moves? steps = some ms) :
    ∀ m ∈ ms, ofMove m ⊆ ofSteps steps := by
  induction steps using moves?.induct generalizing ms with
  | case1 =>
    rw [moves?] at h
    obtain rfl := Option.some.inj h
    exact fun m hm => absurd hm List.not_mem_nil
  | case2 s l rest ih =>
    rw [moves?] at h
    obtain ⟨ns, hns, rfl⟩ := Option.map_eq_some_iff.1 h
    refine List.forall_mem_cons.2 ⟨hstep s l rest, fun m hm => ?_⟩
    exact List.Subset.trans (ih hns m hm) (hrest _ rest)
  | case3 key l rest ih =>
    rw [moves?] at h
    obtain ⟨ns, hns, rfl⟩ := Option.map_eq_some_iff.1 h
    refine List.forall_mem_cons.2 ⟨hrestart key [] l rest, fun m hm => ?_⟩
    exact List.Subset.trans (ih hns m hm) (hrest _ rest)
  | case4 key steps bys l rest ih₁ ih₂ =>
    rw [moves?] at h
    obtain ⟨ms, hms, h⟩ := Option.bind_eq_some_iff.1 h
    obtain ⟨ns, hns, rfl⟩ := Option.map_eq_some_iff.1 h
    refine List.forall_mem_cons.2 ⟨hrestart key _ l rest, fun m hm => ?_⟩
    rcases List.mem_append.1 hm with hm | hm
    · exact List.Subset.trans (ih₁ hms m hm) (hby key steps bys l rest)
    · exact List.Subset.trans (ih₂ hns m hm) (hrest _ rest)
  | case5 steps h₁ h₂ h₃ h₄ =>
    rw [moves?] at h
    · cases h
    all_goals assumption

theorem names_of_moves? {steps : List Step} {ms : List Move} (h : moves? steps = some ms) :
    ∀ m ∈ ms, m.names ⊆ stepsNames steps := by
  refine subset_of_moves? (fun s l rest => List.subset_append_left _ _) ?_ ?_
    (fun s rest => List.subset_append_right _ _) h
  · intro key bys l rest x hx
    exact List.mem_append_left _ (List.mem_append_left _ hx)
  · intro key steps bys l rest x hx
    exact List.mem_append_left _ (List.mem_append_right _ (List.mem_append_left _ hx))

theorem operands_of_moves? {steps : List Step} {ms : List Move} (h : moves? steps = some ms) :
    ∀ m ∈ ms, m.operands ⊆ stepsOperands steps := by
  refine subset_of_moves? (fun s l rest => List.subset_append_left _ _)
    (fun key bys l rest => List.nil_subset _) ?_ (fun s rest => List.subset_append_right _ _) h
  intro key steps bys l rest x hx
  exact List.mem_append_left _ (List.mem_append_left _ hx)

/-! ## Texts of tests -/

namespace Expr

theorem negatable_subject (tag : String) (property : Option String) :
    Negatable (subject tag property) := by
  have hat : Negatable "@" := ⟨'@', [], rfl, by decide⟩
  cases property with
  | none => exact hat.append _
  | some p => exact ((hat.append _).append _).append _

theorem negatable_conjoin {parts : List (String × Bool)} (hne : parts ≠ [])
    (h : ∀ part ∈ parts, Negatable part.1) : Negatable (conjoin parts) := by
  obtain ⟨first, parts, rfl⟩ := List.exists_cons_of_ne_nil hne
  have hfirst := h first List.mem_cons_self
  cases parts with
  | nil => exact hfirst
  | cons part parts => exact negatable_intercalate (hfirst.group _) _ _

theorem negatable_labelTest (tag : String) (labels : List String) :
    Negatable (labelTest tag labels).1 :=
  Predicate.negatable_flatten (negatable_subject ..) _

end Expr

theorem HasTest.negatable_parts (tag : String) (t : HasTest) :
    t.parts tag ≠ [] ∧ ∀ part ∈ t.parts tag, Negatable part.1 := by
  have hflatten : ∀ k (p : Predicate), Negatable (p.flatten (subject tag (some k))) :=
    fun k => Predicate.negatable_flatten (negatable_subject ..)
  cases t with
  | key k => exact ⟨nofun, List.forall_mem_singleton.2 (negatable_subject ..)⟩
  | keyValue k v => exact ⟨nofun, List.forall_mem_singleton.2 (hflatten k _)⟩
  | keyPredicate k p => exact ⟨nofun, List.forall_mem_singleton.2 (hflatten k p)⟩
  | labelKeyValue l k v =>
    refine ⟨nofun, List.forall_mem_cons.2 ⟨negatable_labelTest tag [l], ?_⟩⟩
    exact List.forall_mem_singleton.2 (hflatten k _)

/-! ## Plain cursors -/

/-- No character of the name has a meaning in expressions. -/
def IsPlainName (name : String) : Prop := ∀ c ∈ name.toList, IsPlain c

instance : DecidablePred IsPlainName := fun name =>
  decidable_of_iff (name.toList.all fun c => decide (IsPlain c)) (by simp [IsPlainName])

/-- The record or the property has a plain name, or else the tests can be negated. -/
def Cursor.IsPlain : Cursor → Prop
  | value tag property => IsPlainName tag ∧ ∀ p ∈ property, IsPlainName p
  | test tag parts => IsPlainName tag ∧ parts ≠ [] ∧ ∀ part ∈ parts, Negatable part.1

namespace Cursor

theorem IsPlain.negatable_expr {c : Cursor} (h : c.IsPlain) : Negatable c.expr := by
  cases c with
  | value tag property => exact negatable_subject ..
  | test tag parts => exact negatable_conjoin h.2.1 h.2.2

/-- **A record or a property of plain names is a single operand.** -/
theorem isOperand_value {tag : String} {property : Option String}
    (h : (value tag property).IsPlain) : IsOperand (value tag property).expr := by
  obtain ⟨htag, hproperty⟩ := h
  cases property with
  | none =>
    have htext : (value tag none).expr = String.ofList ('@' :: tag.toList) := by
      rw [← String.toList_inj]
      simp [expr, subject]
    rw [htext]
    exact .of_plain htag
  | some p =>
    have htext : (value tag (some p)).expr =
        String.ofList ('@' :: (tag.toList ++ '.' :: p.toList)) := by
      rw [← String.toList_inj]
      simp [expr, subject]
    rw [htext]
    refine .of_plain (List.forall_mem_append.2 ⟨htag, List.forall_mem_cons.2 ⟨by decide, ?_⟩⟩)
    exact hproperty p rfl

theorem IsPlain.property? {c d : Cursor} {key : String} (hc : c.IsPlain) (hkey : IsPlainName key)
    (h : c.property? key = some d) : d.IsPlain := by
  cases c with
  | value tag property =>
    cases property with
    | none =>
      obtain rfl := Option.some.inj h
      refine ⟨hc.1, fun p hp => ?_⟩
      obtain rfl := Option.some.inj hp
      exact hkey
    | some _ => cases h
  | test tag parts => cases h

theorem IsPlain.filter? {c d : Cursor} {parts : String → List (String × Bool)} (hc : c.IsPlain)
    (hparts : ∀ tag, parts tag ≠ [] ∧ ∀ part ∈ parts tag, Negatable part.1)
    (h : c.filter? parts = some d) : d.IsPlain := by
  cases c with
  | value tag property =>
    cases property with
    | none =>
      obtain rfl := Option.some.inj h
      exact ⟨hc.1, hparts tag⟩
    | some _ => cases h
  | test tag earlier =>
    obtain rfl := Option.some.inj h
    refine ⟨hc.1, ?_, List.forall_mem_append.2 ⟨hc.2.2, (hparts tag).2⟩⟩
    simp [hc.2.1]

/-- **A step keeps a cursor plain.** -/
theorem IsPlain.step? {c d : Cursor} {s : ElementaryStep} (hc : c.IsPlain)
    (hs : ∀ name ∈ s.names, IsPlainName name) (h : c.step? s = some d) : d.IsPlain := by
  cases s with
  | identity =>
    obtain rfl := Option.some.inj h
    exact hc
  | values key => exact hc.property? (hs key List.mem_cons_self) h
  | id => exact hc.property? (by decide) h
  | label => exact hc.property? (by decide) h
  | has t => exact hc.filter? (fun tag => t.negatable_parts tag) h
  | hasLabel labels =>
    cases labels with
    | nil =>
      obtain rfl := Option.some.inj h
      exact hc
    | cons l labels =>
      have hparts : ∀ tag, [labelTest tag (l :: labels)] ≠ [] ∧
          ∀ part ∈ [labelTest tag (l :: labels)], Negatable part.1 := fun tag =>
        ⟨nofun, List.forall_mem_singleton.2 (negatable_labelTest tag (l :: labels))⟩
      exact hc.filter? hparts h
  | is p =>
    cases c with
    | value tag property =>
      obtain rfl := Option.some.inj h
      refine ⟨hc.1, nofun, List.forall_mem_singleton.2 ?_⟩
      exact p.negatable_flatten (negatable_subject ..)
    | test tag parts => cases h
  | _ => cases h

theorem isPlain_ofTag {tag : String} (h : IsPlainName tag) : (ofTag tag).IsPlain :=
  ⟨h, nofun⟩

theorem isPlain_of_run? {c d : Cursor} {ms : List Move} (hc : c.IsPlain)
    (hms : ∀ m ∈ ms, ∀ name ∈ m.names, IsPlainName name) (h : c.run? ms = some d) :
    d.IsPlain := by
  induction ms generalizing c with
  | nil =>
    obtain rfl := Option.some.inj h
    exact hc
  | cons m ms ih =>
    obtain ⟨b, hb, hd⟩ := Option.bind_eq_some_iff.1 h
    have hnames := hms m List.mem_cons_self
    have hplain : b.IsPlain := by
      cases m with
      | restart tag =>
        obtain rfl := Option.some.inj hb
        exact isPlain_ofTag (hnames tag List.mem_cons_self)
      | step s => exact hc.step? hnames hb
    exact ih hplain (fun n hn => hms n (List.mem_cons_of_mem m hn)) hd

end Cursor

/-! ## Extracted expressions -/

theorem Extraction.mem_of_single? {r : Extraction} {e : String} (h : r.single? = some e) :
    ∃ tag, (tag, some e) ∈ r.entries := by
  unfold Extraction.single? at h
  split at h
  · rename_i tag f hentries
    obtain rfl := Option.some.inj h
    exact ⟨tag, by rw [hentries]; exact List.mem_cons_self⟩
  · cases h

namespace Traversal

/-- The traversal stands for what a cursor has reached: along the whole of it, or for one tag along a
modulator if it is a lone `select` or `dedup`. -/
inductive Denotes : Traversal → Cursor → Prop
  | chain {t : Traversal} {c : Cursor} (h : Cursor.current.through? t.steps = some c) : Denotes t c
  | select {s : SelectStep} {l : List String} {i : Nat} (hi : i < s.keys.length) {c : Cursor}
    (h : (Cursor.ofTag s.keys[i]).through? (s.modulatorFor i).steps = some c) :
    Denotes ⟨[⟨.modulated (.select s), l⟩]⟩ c
  | dedup {s : DedupStep} {l : List String} {tag : String} (htag : tag ∈ s.tags) {c : Cursor}
    (h : (Cursor.ofTag tag).through? s.modulatorOrIdentity.steps = some c) :
    Denotes ⟨[⟨.modulated (.dedup s), l⟩]⟩ c

variable {t : Traversal} {c : Cursor} {e : String}

/-- **A single extracted expression is that of a cursor.** -/
theorem exists_denotes_of_single? (h : t.extract.single? = some e) :
    ∃ c, t.Denotes c ∧ e = c.expr := by
  obtain ⟨steps⟩ := t
  unfold extract extractSteps at h
  split at h
  · rename_i s l hsteps
    obtain rfl : steps = _ := hsteps
    obtain ⟨tag, hentry⟩ := Extraction.mem_of_single? h
    obtain ⟨i, hi, hpair⟩ := List.mem_mapIdx.1 (OrderedMap.mem_of_mem_ofList hentry)
    obtain ⟨c, hc, rfl⟩ := Option.map_eq_some_iff.1 (Prod.mk.inj hpair).2
    exact ⟨c, .select hi hc, rfl⟩
  · rename_i s l hsteps
    obtain rfl : steps = _ := hsteps
    obtain ⟨tag, hentry⟩ := Extraction.mem_of_single? h
    obtain ⟨_, htag, hpair⟩ := List.mem_map.1 (OrderedMap.mem_of_mem_ofList hentry)
    obtain ⟨c, hc, rfl⟩ := Option.map_eq_some_iff.1 (Prod.mk.inj hpair).2
    exact ⟨c, .dedup htag hc, rfl⟩
  · split at h
    · rename_i c hc
      obtain rfl := Option.some.inj h
      exact ⟨c, .chain hc, rfl⟩
    · cases h

/-- **What a traversal stands for is reached by moves of its own** from the record of a tag. -/
theorem Denotes.exists_moves (h : t.Denotes c) :
    ∃ tag ms, (Cursor.ofTag tag).run? ms = some c ∧ (tag = "" ∨ tag ∈ t.names) ∧
      ∀ m ∈ ms, m.names ⊆ t.names ∧ m.operands ⊆ t.operands := by
  have along : ∀ {tag : String} {u : Traversal},
      (Cursor.ofTag tag).through? u.steps = some c → (tag = "" ∨ tag ∈ t.names) →
      u.names ⊆ t.names → u.operands ⊆ t.operands →
      ∃ tag ms, (Cursor.ofTag tag).run? ms = some c ∧ (tag = "" ∨ tag ∈ t.names) ∧
        ∀ m ∈ ms, m.names ⊆ t.names ∧ m.operands ⊆ t.operands := by
    rintro tag ⟨steps⟩ hthrough htag hnames hoperands
    rw [Cursor.through?_eq] at hthrough
    obtain ⟨ms, hms, hrun⟩ := Option.bind_eq_some_iff.1 hthrough
    refine ⟨tag, ms, hrun, htag, fun m hm => ?_⟩
    exact ⟨List.Subset.trans (names_of_moves? hms m hm) hnames,
      List.Subset.trans (operands_of_moves? hms m hm) hoperands⟩
  cases h with
  | chain h => exact along h (.inl rfl) (List.Subset.refl _) (List.Subset.refl _)
  | @select s l i hi _ h =>
    obtain ⟨keys, bys⟩ := s
    have htag : keys[i] ∈ keys := List.getElem_mem hi
    refine along h (.inr (List.mem_append_left _ (List.mem_append_left _ htag))) ?_ ?_ <;>
      rcases SelectStep.modulatorFor_eq_identity_or_mem ⟨keys, bys⟩ i with hby | hby
    · rw [hby]
      exact List.nil_subset _
    · intro x hx
      exact List.mem_append_left _ (List.mem_append_right _ (names_subset_traversalsNames hby hx))
    · rw [hby]
      exact List.nil_subset _
    · exact fun x hx => List.mem_append_left _ (operands_subset_traversalsOperands hby hx)
  | @dedup s l tag htag _ h =>
    obtain ⟨keys, modulator⟩ := s
    have htag' : tag = "" ∨ tag ∈ keys := by
      unfold DedupStep.tags at htag
      split at htag
      · exact .inl (List.mem_singleton.1 htag)
      · exact .inr htag
    cases modulator with
    | none =>
      refine along h (htag'.imp_right fun hmem => ?_) (List.nil_subset _) (List.nil_subset _)
      exact List.mem_append_left _ hmem
    | some by' =>
      refine along h (htag'.imp_right fun hmem => ?_) (fun x hx => ?_) fun x hx => ?_
      · exact List.mem_append_left _ (List.mem_append_left _ hmem)
      · exact List.mem_append_left _ (List.mem_append_right _ hx)
      · exact List.mem_append_left _ hx

/-- **What a traversal of plain names stands for is plain.** -/
theorem Denotes.isPlain (h : t.Denotes c) (ht : ∀ name ∈ t.names, IsPlainName name) :
    c.IsPlain := by
  obtain ⟨tag, ms, hrun, htag, hms⟩ := h.exists_moves
  have hplain : IsPlainName tag := by
    rcases htag with rfl | htag
    · decide
    · exact ht tag htag
  exact Cursor.isPlain_of_run? (Cursor.isPlain_ofTag hplain)
    (fun m hm name hname => ht name ((hms m hm).1 hname)) hrun

end Traversal
end TraversalPlan

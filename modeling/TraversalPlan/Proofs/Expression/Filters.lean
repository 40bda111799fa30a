import TraversalPlan.Proofs.Expression.Rewriting

/-!
# Leaving out filters

A filter keeps the current value, so without it a chain should go on as before. For the filters of
an element, and for a test of a whole record, it does. A test of a property is another matter: it
leaves behind a cursor that has forgotten the property, and from there the element may be filtered,
which the property itself does not allow. A chain that does this, and only such a chain, has an
expression that it loses without the test (**`single?_without_filter`**).

* `Cursor.Admits`: a cursor goes on wherever another does; kept by steps and by moves.
* `admits_of_filter`: but for a test of a property, the cursor before a filter admits the one after.
* `filtersElement`: the element is filtered before a chain starts anew.
* `isSome_run?_property`: where a test of a property goes on and the property does not.
-/

namespace TraversalPlan

/-- The step keeps or drops a record and leaves it as it is. -/
def ElementaryStep.isFilter : ElementaryStep → Bool
  | has _ => true
  | hasLabel _ => true
  | is _ => true
  | _ => false

namespace Cursor

/-! ## Going on wherever another cursor does -/

/-- What a cursor does not admit can only be a property: tests of a tag go on wherever other tests
of it do, and so does the record. -/
inductive Admits : Cursor → Cursor → Prop
  | refl (c : Cursor) : Admits c c
  | record (tag : String) (parts : List (String × Bool)) : Admits (ofTag tag) (test tag parts)
  | tests (tag : String) (parts parts' : List (String × Bool)) :
    Admits (test tag parts) (test tag parts')

variable {c d b : Cursor}

theorem Admits.filter? (h : c.Admits d) {parts : String → List (String × Bool)}
    (hd : d.filter? parts = some b) : ∃ a, c.filter? parts = some a ∧ a.Admits b := by
  cases h with
  | refl => exact ⟨b, hd, .refl b⟩
  | record tag earlier =>
    obtain rfl := Option.some.inj hd
    exact ⟨_, rfl, .tests tag _ _⟩
  | tests tag earlier earlier' =>
    obtain rfl := Option.some.inj hd
    exact ⟨_, rfl, .tests tag _ _⟩

/-- Tests go on only to filters of the element, and the record and other tests do so too. -/
theorem Admits.step? (h : c.Admits d) {s : ElementaryStep} (hd : d.step? s = some b) :
    ∃ a, c.step? s = some a ∧ a.Admits b := by
  have hidle : c.step? s = some c → d.step? s = some d → ∃ a, c.step? s = some a ∧ a.Admits b := by
    intro hc hd'
    obtain rfl := Option.some.inj (hd'.symm.trans hd)
    exact ⟨c, hc, h⟩
  cases s with
  | identity => exact hidle rfl rfl
  | has t => exact h.filter? hd
  | hasLabel labels =>
    cases labels with
    | nil => exact hidle rfl rfl
    | cons l labels => exact h.filter? hd
  | _ =>
    cases h with
    | refl => exact ⟨b, hd, .refl b⟩
    | _ => cases hd

/-- **A cursor follows the moves of one that it admits.** -/
theorem Admits.run? (h : c.Admits d) {ms : List Move} (hd : d.run? ms = some b) :
    ∃ a, c.run? ms = some a ∧ a.Admits b := by
  induction ms generalizing c d with
  | nil =>
    obtain rfl := Option.some.inj hd
    exact ⟨c, rfl, h⟩
  | cons m ms ih =>
    obtain ⟨d', hd', hrest⟩ := Option.bind_eq_some_iff.1 hd
    have hmove : ∃ c', c.move? m = some c' ∧ c'.Admits d' := by
      cases m with
      | restart tag => exact ⟨d', hd', .refl d'⟩
      | step s => exact h.step? hd'
    obtain ⟨c', hc', hadmits⟩ := hmove
    obtain ⟨a, ha, hab⟩ := ih hadmits hrest
    exact ⟨a, by rw [Cursor.run?, hc']; exact ha, hab⟩

/-- **Before a filter stands what admits the cursor after it**, or a property that is tested. -/
theorem admits_of_filter {s : ElementaryStep} (hs : s.isFilter = true) (h : c.step? s = some d) :
    c.Admits d ∨ ∃ tag key p, c = value tag (some key) ∧ s = .is p := by
  have hfilter : ∀ parts : String → List (String × Bool), c.filter? parts = some d →
      c.Admits d := by
    intro parts hd
    cases c with
    | value tag property =>
      cases property with
      | none =>
        obtain rfl := Option.some.inj hd
        exact .record tag _
      | some key => cases hd
    | test tag earlier =>
      obtain rfl := Option.some.inj hd
      exact .tests tag _ _
  cases s with
  | has t => exact .inl (hfilter _ h)
  | hasLabel labels =>
    cases labels with
    | nil =>
      obtain rfl := Option.some.inj h
      exact .inl (.refl c)
    | cons l labels => exact .inl (hfilter _ h)
  | is p =>
    cases c with
    | value tag property =>
      cases property with
      | none =>
        obtain rfl := Option.some.inj h
        exact .inl (.record tag _)
      | some key => exact .inr ⟨tag, key, p, rfl, rfl⟩
    | test tag earlier => cases h
  | _ => cases hs

end Cursor

/-! ## Filters of the element -/

/-- The step is a filter that only an element passes. -/
def ElementaryStep.filtersElement : ElementaryStep → Bool
  | has _ => true
  | hasLabel (_ :: _) => true
  | _ => false

/-- The element is filtered before the moves start anew. -/
def filtersElement : List Move → Bool
  | [] => false
  | .restart _ :: _ => false
  | .step s :: ms => s.filtersElement || filtersElement ms

namespace Cursor

/-- **Moves that go on from tests go on from a property** just if they do not filter the element. -/
theorem isSome_run?_property {tag key : String} {parts : List (String × Bool)} {ms : List Move}
    (h : ((test tag parts).run? ms).isSome) :
    ((value tag (some key)).run? ms).isSome ↔ filtersElement ms = false := by
  induction ms generalizing parts with
  | nil => simp [run?, filtersElement]
  | cons m ms ih =>
    cases m with
    | restart tag' => simpa [run?, move?, filtersElement] using h
    | step s =>
      have hidle : (∀ c : Cursor, c.step? s = some c) → s.filtersElement = false →
          (((value tag (some key)).run? (.step s :: ms)).isSome ↔
            filtersElement (.step s :: ms) = false) := by
        intro hstep hs
        have hrest : ((test tag parts).run? ms).isSome := by
          simpa [run?, move?, hstep] using h
        simpa [run?, move?, hstep, filtersElement, hs] using ih hrest
      cases s with
      | identity => exact hidle (fun _ => rfl) rfl
      | has t => simp [run?, move?, step?, filter?, filtersElement, ElementaryStep.filtersElement]
      | hasLabel labels =>
        cases labels with
        | nil => exact hidle (fun _ => rfl) rfl
        | cons l labels =>
          simp [run?, move?, step?, filter?, filtersElement, ElementaryStep.filtersElement]
      | _ => simp [run?, move?, step?, property?, is?] at h

end Cursor

/-! ## Chains -/

/-- The step tests a property, and the element is filtered after it. -/
def FiltersBehindTest (pre : List Step) (s : ElementaryStep) (post : List Step) : Prop :=
  ∃ tag key p ms, Cursor.current.through? pre = some (.value tag (some key)) ∧ s = .is p ∧
    moves? post = some ms ∧ filtersElement ms = true

variable {pre post : List Step} {s : ElementaryStep} {labels : List String} {e : String}

/-- A cursor that goes on through a filter goes on without it, unless the filter tests a property
and the element is filtered after it. -/
theorem isSome_run?_without_filter {c d : Cursor} {ms : List Move} (hs : s.isFilter = true)
    (hpre : Cursor.current.through? pre = some c) (hd : c.step? s = some d)
    (hms : moves? post = some ms) (hrun : (d.run? ms).isSome) :
    (c.run? ms).isSome ↔ ¬ FiltersBehindTest pre s post := by
  rcases Cursor.admits_of_filter hs hd with hadmits | ⟨tag, key, p, rfl, rfl⟩
  · obtain ⟨b, hb⟩ := Option.isSome_iff_exists.1 hrun
    obtain ⟨a, ha, -⟩ := hadmits.run? hb
    refine iff_of_true (by rw [ha]; rfl) ?_
    rintro ⟨tag, key, p, _, hproperty, rfl, -, -⟩
    obtain rfl := Option.some.inj (hpre.symm.trans hproperty)
    cases hadmits
    cases hd
  · obtain rfl := Option.some.inj hd
    rw [Cursor.isSome_run?_property hrun]
    constructor
    · rintro hfilters ⟨_, _, _, ms', -, -, hms', hfilters'⟩
      obtain rfl := Option.some.inj (hms.symm.trans hms')
      rw [hfilters] at hfilters'
      cases hfilters'
    · intro hbehind
      rw [← Bool.not_eq_true]
      exact fun hfilters => hbehind ⟨tag, key, p, ms, hpre, rfl, hms, hfilters⟩

/-- **Without a filter a chain keeps an expression**, unless the filter tests a property and the
element is filtered after it. Such a chain has an expression only with the test. -/
theorem single?_without_filter (hs : s.isFilter = true) (hchain : Traversal.IsChain ⟨pre ++ post⟩)
    (h : (Traversal.mk (pre ++ ⟨.elementary s, labels⟩ :: post)).extract.single? = some e) :
    (∃ e', (Traversal.mk (pre ++ post)).extract.single? = some e') ↔
      ¬ FiltersBehindTest pre s post := by
  have hwith : Traversal.IsChain ⟨pre ++ ⟨.elementary s, labels⟩ :: post⟩ :=
    Traversal.isChain_of_elementary s labels (by simp)
  rw [single?_extract hwith, Cursor.through?_append] at h
  obtain ⟨b, hb, -⟩ := Option.map_eq_some_iff.1 h
  obtain ⟨c, hpre, hb⟩ := Option.bind_eq_some_iff.1 hb
  rw [Cursor.through?] at hb
  obtain ⟨d, hd, hb⟩ := Option.bind_eq_some_iff.1 hb
  rw [Cursor.through?_eq] at hb
  obtain ⟨ms, hms, hrun⟩ := Option.bind_eq_some_iff.1 hb
  rw [← isSome_run?_without_filter hs hpre hd hms (Option.isSome_of_eq_some hrun),
    single?_extract hchain, Cursor.through?_append, hpre, Option.bind_some, Cursor.through?_eq, hms,
    Option.bind_some, ← Option.isSome_iff_exists, Option.isSome_map]

theorem single?_extract_of_moves? {steps : List Step} {ms : List Move}
    (hchain : Traversal.IsChain ⟨steps⟩) (hms : moves? steps = some ms) :
    (Traversal.mk steps).extract.single? = (Cursor.current.run? ms).map Cursor.expr := by
  rw [single?_extract hchain, Cursor.through?_eq, hms, Option.bind_some]

/-- The age of the current record. -/
def ageProperty : List Step := (Traversal.identity.values "age").steps

/-- A test of the age. -/
def ageTest : ElementaryStep := .is (.gt (.int 30))

/-- A filter of the current record by name. -/
def nameFilter : List Step := (Traversal.identity.has "name" (.string "marko")).steps

theorem single?_without_filter_ageTest :
    (ageTest.isFilter = true ∧ Traversal.IsChain ⟨ageProperty ++ []⟩ ∧
      (Traversal.mk (ageProperty ++ [⟨.elementary ageTest, []⟩])).extract.single? =
        some "@.age > 30") ∧
    ∃ e, (Traversal.mk (ageProperty ++ [])).extract.single? = some e := by
  have hfilter : ageTest.isFilter = true := rfl
  have hchain : Traversal.IsChain ⟨ageProperty ++ []⟩ := fun l => ⟨nofun, nofun⟩
  have hmoves : moves? (ageProperty ++ [⟨.elementary ageTest, []⟩]) =
      some [.step (.values "age"), .step ageTest] := by cbv
  have hexpr : (Traversal.mk (ageProperty ++ [⟨.elementary ageTest, []⟩])).extract.single? =
      some "@.age > 30" :=
    single?_extract_of_moves? (Traversal.isChain_of_elementary ageTest [] (by simp)) hmoves
  refine ⟨⟨hfilter, hchain, hexpr⟩, (single?_without_filter hfilter hchain hexpr).2 ?_⟩
  -- nothing comes after the test
  rintro ⟨_, _, _, ms, -, -, hms, hfilters⟩
  rw [moves?] at hms
  obtain rfl := Option.some.inj hms
  cases hfilters

theorem filter_refused_without_test :
    ageTest.isFilter = true ∧ Traversal.IsChain ⟨ageProperty ++ nameFilter⟩ ∧
      (Traversal.mk (ageProperty ++ ⟨.elementary ageTest, []⟩ :: nameFilter)).extract.single? =
        some "@.age > 30 && @.name == \"marko\"" ∧
      (Traversal.mk (ageProperty ++ nameFilter)).extract.single? = none := by
  have hchain : Traversal.IsChain ⟨ageProperty ++ nameFilter⟩ := fun l => ⟨nofun, nofun⟩
  have hwith : moves? (ageProperty ++ ⟨.elementary ageTest, []⟩ :: nameFilter) =
      some [.step (.values "age"), .step ageTest,
        .step (.has (.keyValue "name" (.string "marko")))] := by cbv
  have hwithout : moves? (ageProperty ++ nameFilter) =
      some [.step (.values "age"), .step (.has (.keyValue "name" (.string "marko")))] := by cbv
  exact ⟨rfl, hchain,
    single?_extract_of_moves? (Traversal.isChain_of_elementary ageTest [] (by simp)) hwith,
    single?_extract_of_moves? hchain hwithout⟩

end TraversalPlan

import Mathlib.Data.List.Infix
import TraversalPlan.Expression.Extraction
import TraversalPlan.Traversal.Build

/-!
# Tests along a chain

A pure chain of steps moves a cursor. A `select` of one tag starts anew at that tag, every other step
moves on from where the cursor stands, and filters leave tests. The expression of the chain is the
conjunction of the tests read since the cursor last started anew; those read before that are lost
(**`tests_of_extract`**).

* `Move`, `moves?`: the moves of a chain, with those of the modulator of a `select` in its place.
* `Cursor.testsAlong`: every test on the way, of the record or the value where the cursor stood.
* `tests_of_step?`, `tests_of_run?`: a step and several moves keep the tests and add theirs.
* `tests_of_restart`, `tests_eq_iff`: what is lost where a cursor starts anew.
-/

namespace TraversalPlan

/-! ## Moves -/

/-- A move of a cursor along a chain. -/
inductive Move where
  /-- Starts anew at a tag. -/
  | restart (tag : String)
  | step (s : ElementaryStep)

/-- The moves of steps, if all of them are pure. -/
def moves? : List Step → Option (List Move)
  | [] => some []
  | ⟨.elementary s, _⟩ :: rest => (moves? rest).map (.step s :: ·)
  | ⟨.modulated (.select ⟨[key], []⟩), _⟩ :: rest => (moves? rest).map (.restart key :: ·)
  | ⟨.modulated (.select ⟨[key], ⟨steps⟩ :: _⟩), _⟩ :: rest =>
    (moves? steps).bind fun ms => (moves? rest).map fun ns => .restart key :: (ms ++ ns)
  | _ => none

namespace Cursor

def move? (c : Cursor) : Move → Option Cursor
  | .restart tag => some (ofTag tag)
  | .step s => c.step? s

/-- Follows moves. -/
def run? : Cursor → List Move → Option Cursor
  | c, [] => some c
  | c, m :: ms => (c.move? m).bind fun d => run? d ms

theorem run?_append (c : Cursor) (ms ns : List Move) :
    c.run? (ms ++ ns) = (c.run? ms).bind fun d => d.run? ns := by
  induction ms generalizing c with
  | nil => rfl
  | cons m ms ih =>
    rw [List.cons_append, run?, run?, Option.bind_assoc]
    exact congrArg _ (funext fun d => ih d)

/-- **Following steps is following their moves.** -/
theorem through?_eq (c : Cursor) (steps : List Step) :
    c.through? steps = (moves? steps).bind c.run? := by
  induction steps using moves?.induct generalizing c with
  | case1 => rw [through?, moves?, Option.bind_some, run?]
  | case2 s _ rest ih =>
    rw [through?, moves?, Option.bind_map]
    cases hs : c.step? s with
    | none => cases moves? rest <;> simp [run?, move?, hs]
    | some d =>
      rw [Option.bind_some, ih d]
      exact congrArg _ (funext fun ms => by simp [run?, move?, hs])
  | case3 key _ rest ih =>
    rw [through?, moves?, ih, Option.bind_map]
    exact congrArg _ (funext fun ms => by simp [run?, move?])
  | case4 key steps _ _ rest ih₁ ih₂ =>
    rw [through?, moves?, ih₁, Option.bind_assoc, Option.bind_assoc]
    refine congrArg _ (funext fun ms => ?_)
    rw [Option.bind_map]
    have hrun : ∀ ns, c.run? (.restart key :: (ms ++ ns)) =
        ((ofTag key).run? ms).bind fun d => d.run? ns := fun ns => run?_append (ofTag key) ms ns
    cases hms : (ofTag key).run? ms with
    | none => cases moves? rest <;> simp [hrun, hms]
    | some d =>
      rw [Option.bind_some, ih₂ d]
      exact congrArg _ (funext fun ns => by simp [hrun, hms])
  | case5 steps h₁ h₂ h₃ h₄ =>
    rw [moves?, through?]
    · rfl
    all_goals assumption

/-! ## Tests -/

/-- The tests that the cursor stands for. -/
def tests : Cursor → List (String × Bool)
  | value _ _ => []
  | test _ parts => parts

/-- The tests of a filter, on the record or the value where the cursor stands. -/
def testsOf : Cursor → Move → List (String × Bool)
  | c, .step (.has t) => t.parts c.tag
  | c, .step (.hasLabel (l :: labels)) => [Expr.labelTest c.tag (l :: labels)]
  | value tag property, .step (.is p) => [(p.flatten (Expr.subject tag property), p.isCompound)]
  | _, _ => []

/-- The tests of all filters on the way. -/
def testsAlong : Cursor → List Move → List (String × Bool)
  | _, [] => []
  | c, m :: ms =>
    match c.move? m with
    | some d => c.testsOf m ++ testsAlong d ms
    | none => []

theorem expr_of_tests {c : Cursor} (h : c.tests ≠ []) : c.expr = Expr.conjoin c.tests := by
  cases c with
  | value tag property => exact absurd rfl h
  | test tag parts => rfl

theorem tests_of_property? {c d : Cursor} {key : String} (h : c.property? key = some d) :
    d.tests = c.tests := by
  cases c with
  | value tag property =>
    cases property with
    | none =>
      obtain rfl := Option.some.inj h
      rfl
    | some _ => cases h
  | test tag parts => cases h

theorem tests_of_filter? {c d : Cursor} {parts : String → List (String × Bool)}
    (h : c.filter? parts = some d) : d.tests = c.tests ++ parts c.tag := by
  cases c with
  | value tag property =>
    cases property with
    | none =>
      obtain rfl := Option.some.inj h
      rfl
    | some _ => cases h
  | test tag earlier =>
    obtain rfl := Option.some.inj h
    rfl

/-- **A step keeps the tests of the cursor** and adds its own. -/
theorem tests_of_step? {c d : Cursor} {s : ElementaryStep} (h : c.step? s = some d) :
    d.tests = c.tests ++ c.testsOf (.step s) := by
  have hnone : c.testsOf (.step s) = [] → d.tests = c.tests →
      d.tests = c.tests ++ c.testsOf (.step s) := by
    intro htests hd
    rw [htests, hd, List.append_nil]
  cases s with
  | identity =>
    obtain rfl := Option.some.inj h
    exact hnone (by cases c <;> rfl) rfl
  | values key => exact hnone (by cases c <;> rfl) (tests_of_property? h)
  | id => exact hnone (by cases c <;> rfl) (tests_of_property? h)
  | label => exact hnone (by cases c <;> rfl) (tests_of_property? h)
  | has t => exact tests_of_filter? h
  | hasLabel labels =>
    cases labels with
    | nil =>
      obtain rfl := Option.some.inj h
      exact hnone (by cases c <;> rfl) rfl
    | cons l labels => exact tests_of_filter? h
  | is p =>
    cases c with
    | value tag property =>
      obtain rfl := Option.some.inj h
      rfl
    | test tag parts => cases h
  | _ => cases h

/-- **Moves that never start anew keep all tests.** -/
theorem tests_of_run? {c d : Cursor} {ms : List Move} (h : c.run? ms = some d)
    (hms : ∀ tag, .restart tag ∉ ms) : d.tests = c.tests ++ c.testsAlong ms := by
  induction ms generalizing c with
  | nil =>
    obtain rfl := Option.some.inj h
    exact (List.append_nil _).symm
  | cons m ms ih =>
    obtain ⟨b, hb, hd⟩ := Option.bind_eq_some_iff.1 h
    have hrest := ih hd fun tag htag => hms tag (List.mem_cons_of_mem m htag)
    have hmove : b.tests = c.tests ++ c.testsOf m := by
      cases m with
      | restart tag => exact absurd List.mem_cons_self (hms tag)
      | step s => exact tests_of_step? hb
    rw [hrest, hmove, testsAlong, hb, List.append_assoc]

theorem testsAlong_append {c d : Cursor} {ms : List Move} (h : c.run? ms = some d)
    (ns : List Move) : c.testsAlong (ms ++ ns) = c.testsAlong ms ++ d.testsAlong ns := by
  induction ms generalizing c with
  | nil =>
    obtain rfl := Option.some.inj h
    rfl
  | cons m ms ih =>
    obtain ⟨b, hb, hd⟩ := Option.bind_eq_some_iff.1 h
    rw [List.cons_append, testsAlong, testsAlong, hb]
    exact (congrArg _ (ih hd)).trans (List.append_assoc ..).symm

/-! ## Starting anew -/

theorem exists_last_restart (ms : List Move) :
    (∀ tag, .restart tag ∉ ms) ∨
      ∃ before tag after, ms = before ++ .restart tag :: after ∧ ∀ t, .restart t ∉ after := by
  induction ms with
  | nil => exact .inl fun _ => List.not_mem_nil
  | cons m ms ih =>
    rcases ih with hnone | ⟨before, tag, after, rfl, hafter⟩
    · cases m with
      | restart tag => exact .inr ⟨[], tag, ms, rfl, hnone⟩
      | step s =>
        refine .inl fun tag htag => ?_
        rcases List.mem_cons.1 htag with h | h
        · cases h
        · exact hnone tag h
    · exact .inr ⟨m :: before, tag, after, rfl, hafter⟩

/-- **Starting anew forgets the tests before**, and those after are kept. -/
theorem tests_of_restart {c d : Cursor} {before after : List Move} {tag : String}
    (h : c.run? (before ++ .restart tag :: after) = some d) :
    (ofTag tag).run? after = some d ∧
      c.testsAlong (before ++ .restart tag :: after) =
        c.testsAlong before ++ (ofTag tag).testsAlong after := by
  rw [run?_append] at h
  obtain ⟨b, hb, hd⟩ := Option.bind_eq_some_iff.1 h
  refine ⟨hd, ?_⟩
  rw [testsAlong_append hb]
  exact congrArg _ (by cases b <;> rfl)

theorem tests_suffix {c d : Cursor} {ms : List Move} (h : c.run? ms = some d)
    (hc : c.tests = []) : d.tests <:+ c.testsAlong ms := by
  rcases exists_last_restart ms with hnone | ⟨before, tag, after, rfl, hafter⟩
  · rw [tests_of_run? h hnone, hc, List.nil_append]
  · obtain ⟨hrun, halong⟩ := tests_of_restart h
    have htests : d.tests = (ofTag tag).testsAlong after := tests_of_run? hrun hafter
    rw [halong, htests]
    exact List.suffix_append _ _

/-- **No test is lost** just if none is read before a move that starts anew. -/
theorem tests_eq_iff {c d : Cursor} {ms : List Move} (h : c.run? ms = some d)
    (hc : c.tests = []) :
    d.tests = c.testsAlong ms ↔
      ∀ before tag after, ms = before ++ .restart tag :: after → c.testsAlong before = [] := by
  constructor
  · rintro hall before tag after rfl
    obtain ⟨hrun, halong⟩ := tests_of_restart h
    have hlength := congrArg List.length (hall.trans halong)
    have hkept := (tests_suffix hrun rfl).length_le
    rw [List.length_append] at hlength
    exact List.eq_nil_of_length_eq_zero (by omega)
  · intro hbefore
    rcases exists_last_restart ms with hnone | ⟨before, tag, after, rfl, hafter⟩
    · rw [tests_of_run? h hnone, hc, List.nil_append]
    · obtain ⟨hrun, halong⟩ := tests_of_restart h
      have htests : d.tests = (ofTag tag).testsAlong after := tests_of_run? hrun hafter
      rw [halong, hbefore before tag after rfl, htests, List.nil_append]

end Cursor

/-! ## Extraction -/

/-- The traversal is not a lone `select` or `dedup`, which has an entry for each tag. -/
def Traversal.IsChain (t : Traversal) : Prop :=
  ∀ l, (∀ s, t.steps ≠ [⟨.modulated (.select s), l⟩]) ∧
    ∀ s, t.steps ≠ [⟨.modulated (.dedup s), l⟩]

theorem single?_extract {t : Traversal} (ht : t.IsChain) :
    t.extract.single? = (Cursor.current.through? t.steps).map Cursor.expr := by
  unfold Traversal.extract extractSteps
  split
  · rename_i s l hsteps
    exact absurd hsteps ((ht l).1 s)
  · rename_i s l hsteps
    exact absurd hsteps ((ht l).2 s)
  · cases Cursor.current.through? t.steps <;> rfl

/-- **The expression of a chain conjoins the tests read since the last `select`.** These are all tests
on the way just if no filter stands before a `select`; a chain with a filter before a `select` has an
expression all the same. -/
theorem tests_of_extract {t : Traversal} {e : String} (ht : t.IsChain)
    (h : t.extract.single? = some e) :
    ∃ ms c, moves? t.steps = some ms ∧ Cursor.current.run? ms = some c ∧ e = c.expr ∧
      (c.tests ≠ [] → e = Expr.conjoin c.tests) ∧
      c.tests <:+ Cursor.current.testsAlong ms ∧
      (c.tests = Cursor.current.testsAlong ms ↔
        ∀ before tag after, ms = before ++ .restart tag :: after →
          Cursor.current.testsAlong before = []) := by
  rw [single?_extract ht, Cursor.through?_eq] at h
  obtain ⟨c, hc, rfl⟩ := Option.map_eq_some_iff.1 h
  obtain ⟨ms, hms, hrun⟩ := Option.bind_eq_some_iff.1 hc
  exact ⟨ms, c, hms, hrun, rfl, Cursor.expr_of_tests, Cursor.tests_suffix hrun rfl,
    Cursor.tests_eq_iff hrun rfl⟩

/-- A filter of the record of a tag. -/
def selectedFilter : Traversal := (Traversal.identity.select "a").has "name" (.string "marko")

/-- A filter of the current record before a tag is selected. -/
def filteredSelect : Traversal := (Traversal.identity.has "name" (.string "marko")).select "a"

theorem tests_of_extract_selectedFilter :
    (selectedFilter.IsChain ∧ selectedFilter.extract.single? = some "@a.name == \"marko\"") ∧
      ∃ ms c, moves? selectedFilter.steps = some ms ∧ Cursor.current.run? ms = some c ∧
        (c.tests ≠ [] → "@a.name == \"marko\"" = Expr.conjoin c.tests) ∧
        c.tests <:+ Cursor.current.testsAlong ms := by
  have hchain : selectedFilter.IsChain := fun l => ⟨nofun, nofun⟩
  have hexpr : selectedFilter.extract.single? = some "@a.name == \"marko\"" := by cbv
  obtain ⟨ms, c, hms, hrun, -, htests, hsuffix, -⟩ := tests_of_extract hchain hexpr
  exact ⟨⟨hchain, hexpr⟩, ms, c, hms, hrun, htests, hsuffix⟩

theorem select_loses_test :
    filteredSelect.IsChain ∧ filteredSelect.extract.single? = some "@a" ∧
      ∃ ms, moves? filteredSelect.steps = some ms ∧
        Cursor.current.testsAlong ms = [("@.name == \"marko\"", false)] := by
  let byName := Move.step (.has (.keyValue "name" (.string "marko")))
  have hmoves : moves? filteredSelect.steps = some [byName, .restart "a"] := by cbv
  exact ⟨fun l => ⟨nofun, nofun⟩, by cbv, _, hmoves, by decide⟩

end TraversalPlan

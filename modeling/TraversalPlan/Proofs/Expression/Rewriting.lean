import Mathlib.Data.List.GetD
import TraversalPlan.Proofs.Expression.Chain

/-!
# Rewriting pure chains

A chain can be written in several ways. The modulator of a `select` may stand as steps after it,
the label in a `has` as a `hasLabel` before it, and a step that does nothing may be left out. In
each case every cursor follows the old and the new steps alike, so it does not matter what stands
around them or how deep inside modulators they are: the expression is the same
(**`single?_extract_fill`**). Hence a modulator has one expression at the record of a tag, whether
it is followed from there or extracted behind a `select` of the tag.

* `Alike`: two lists of steps that every cursor follows alike.
* `Gap`, `Gap.fill`: a place for steps in a traversal, and the traversal with some steps there.
* `alike_fill`: steps that are alike may take each other's place.
* `Traversal.IsFollowed`: the expression of the traversal is that of its chain, even if it is a lone
  `select` of one key.
* `single?_fill`: what is alike has the same expression in every gap.
-/

namespace TraversalPlan

/-! ## Following steps in parts -/

namespace Cursor

theorem through?_cons (c : Cursor) (s : Step) (rest : List Step) :
    c.through? (s :: rest) = (c.through? [s]).bind fun d => d.through? rest := by
  obtain ⟨kind, labels⟩ := s
  cases kind with
  | elementary s => simp [through?]
  | modulated m =>
    cases m with
    | select s =>
      obtain ⟨_ | ⟨key, _ | ⟨key', keys⟩⟩, _ | ⟨⟨steps⟩, bys⟩⟩ := s <;> simp [through?]
    | _ => simp [through?]

theorem through?_append (c : Cursor) (xs ys : List Step) :
    c.through? (xs ++ ys) = (c.through? xs).bind fun d => d.through? ys := by
  induction xs generalizing c with
  | nil => rw [List.nil_append, through?, Option.bind_some]
  | cons s xs ih =>
    rw [List.cons_append, through?_cons, through?_cons c s xs, Option.bind_assoc]
    exact congrArg _ (funext ih)

end Cursor

/-! ## Steps that are followed alike -/

/-- Every cursor follows the steps alike. -/
def Alike (xs ys : List Step) : Prop := ∀ c : Cursor, c.through? xs = c.through? ys

/-- The step leaves every record as it is. -/
def ElementaryStep.isIdle : ElementaryStep → Bool
  | identity => true
  | hasLabel [] => true
  | _ => false

variable {xs ys : List Step}

theorem Alike.between (h : Alike xs ys) (before after : List Step) :
    Alike (before ++ xs ++ after) (before ++ ys ++ after) := by
  intro c
  simp only [Cursor.through?_append]
  exact congrArg (Option.bind · _) (congrArg _ (funext h))

/-- **The modulator of a `select` of one key may follow it.** -/
theorem alike_select (key : String) (t : Traversal) (bys : List Traversal)
    (labels labels' : List String) :
    Alike [⟨.modulated (.select ⟨[key], t :: bys⟩), labels⟩]
      (⟨.modulated (.select ⟨[key], []⟩), labels'⟩ :: t.steps) := by
  intro c
  obtain ⟨steps⟩ := t
  simp [Cursor.through?]

/-- **The label in a `has` may stand before it.** -/
theorem alike_has (label key : String) (v : Value) (labels labels₁ labels₂ : List String) :
    Alike [⟨.elementary (.has (.labelKeyValue label key v)), labels⟩]
      [⟨.elementary (.hasLabel [label]), labels₁⟩,
        ⟨.elementary (.has (.keyValue key v)), labels₂⟩] := by
  intro c
  cases c with
  | value tag property =>
    cases property <;> simp [Cursor.through?, Cursor.step?, Cursor.filter?, HasTest.parts]
  | test tag parts => simp [Cursor.through?, Cursor.step?, Cursor.filter?, HasTest.parts]

/-- **A step that does nothing may be left out.** -/
theorem alike_idle {s : ElementaryStep} (hs : s.isIdle = true) (labels : List String) :
    Alike [⟨.elementary s, labels⟩] [] := by
  intro c
  have hstep : c.step? s = some c := by
    unfold ElementaryStep.isIdle at hs
    split at hs
    · rfl
    · rfl
    · cases hs
  simp [Cursor.through?, hstep]

/-- A `select` whose modulators are alike. Only the first one is followed, from the one key. -/
theorem Alike.select {t u : Traversal} (h : Alike t.steps u.steps) (keys : List String)
    (bys bys' : List Traversal) (labels : List String) :
    Alike [⟨.modulated (.select ⟨keys, bys ++ t :: bys'⟩), labels⟩]
      [⟨.modulated (.select ⟨keys, bys ++ u :: bys'⟩), labels⟩] := by
  intro c
  obtain ⟨steps⟩ := t
  obtain ⟨steps'⟩ := u
  match keys, bys with
  | [], _ => simp [Cursor.through?]
  | [key], [] => simpa [Cursor.through?] using h (.ofTag key)
  | [_], ⟨_⟩ :: _ => simp [Cursor.through?]
  | _ :: _ :: _, _ => simp [Cursor.through?]

/-! ## Gaps -/

/-- A gap in a traversal, for some steps. -/
inductive Gap where
  | between (before after : List Step)
  /-- In a modulator of a `select`. -/
  | select (before : List Step) (keys : List String) (bys : List Traversal) (inner : Gap)
    (bys' : List Traversal) (labels : List String) (after : List Step)
  /-- In the modulator of a `dedup`. -/
  | dedup (before : List Step) (keys : List String) (inner : Gap) (labels : List String)
    (after : List Step)

/-- The traversal with some steps in the gap. -/
def Gap.fill : Gap → List Step → Traversal
  | between before after, xs => ⟨before ++ xs ++ after⟩
  | select before keys bys inner bys' labels after, xs =>
    ⟨before ++ [⟨.modulated (.select ⟨keys, bys ++ inner.fill xs :: bys'⟩), labels⟩] ++ after⟩
  | dedup before keys inner labels after, xs =>
    ⟨before ++ [⟨.modulated (.dedup ⟨keys, some (inner.fill xs)⟩), labels⟩] ++ after⟩

/-- **Traversals are alike if what fills a gap in them is.** -/
theorem alike_fill (h : Alike xs ys) (g : Gap) : Alike (g.fill xs).steps (g.fill ys).steps := by
  induction g with
  | between before after => exact h.between before after
  | select before keys bys inner bys' labels after ih =>
    exact (ih.select keys bys bys' labels).between before after
  | dedup before keys inner labels after ih =>
    -- no chain goes on through a `dedup`
    exact Alike.between (fun c => by simp [Cursor.through?]) before after

/-! ## Extraction -/

namespace Traversal

theorem exprAt?_of_alike {t u : Traversal} (h : Alike t.steps u.steps) (tag : String) :
    t.exprAt? tag = u.exprAt? tag :=
  congrArg (Option.map Cursor.expr) (h (.ofTag tag))

end Traversal

theorem SelectStep.extract_of_alike {t u : Traversal} (h : Alike t.steps u.steps)
    (keys : List String) (bys bys' : List Traversal) :
    (SelectStep.mk keys (bys ++ t :: bys')).extract =
      (SelectStep.mk keys (bys ++ u :: bys')).extract := by
  have hmodulator : ∀ i key,
      ((SelectStep.mk keys (bys ++ t :: bys')).modulatorFor i).exprAt? key =
        ((SelectStep.mk keys (bys ++ u :: bys')).modulatorFor i).exprAt? key := by
    intro i key
    simp only [modulatorFor, List.length_append, List.length_cons]
    rw [← List.getD_map _ _ fun v : Traversal => v.exprAt? key,
      ← List.getD_map _ _ fun v : Traversal => v.exprAt? key, List.map_append, List.map_append,
      List.map_cons, List.map_cons, Traversal.exprAt?_of_alike h]
  simp only [extract, hmodulator]

theorem DedupStep.extract_of_alike {t u : Traversal} (h : Alike t.steps u.steps)
    (keys : List String) :
    (DedupStep.mk keys (some t)).extract = (DedupStep.mk keys (some u)).extract := by
  simp only [extract, tags, modulatorOrIdentity, Option.getD_some, Traversal.exprAt?_of_alike h]

theorem SelectStep.single?_extract_of_key (key : String) (bys : List Traversal) :
    (SelectStep.mk [key] bys).extract.single? =
      ((SelectStep.mk [key] bys).modulatorFor 0).exprAt? key := by
  have hentry : ∀ e, Extraction.single? (OrderedMap.ofList [(key, e)]) = e := fun e => by
    cases e <;> rfl
  exact hentry _

namespace Traversal

/-- The expression of the traversal is that of its steps as a chain. -/
def IsFollowed (t : Traversal) : Prop :=
  t.extract.single? = (Cursor.current.through? t.steps).map Cursor.expr

theorem isChain_of_length {t : Traversal} (h : t.steps.length ≠ 1) : t.IsChain :=
  fun _ => ⟨fun _ hs => h (by rw [hs]; rfl), fun _ hs => h (by rw [hs]; rfl)⟩

theorem isChain_of_elementary {t : Traversal} (s : ElementaryStep) (labels : List String)
    (h : ⟨.elementary s, labels⟩ ∈ t.steps) : t.IsChain := by
  intro l
  constructor
  · intro s' hs
    rw [hs] at h
    cases List.mem_singleton.1 h
  · intro s' hs
    rw [hs] at h
    cases List.mem_singleton.1 h

theorem isFollowed_of_isChain {t : Traversal} (h : t.IsChain) : t.IsFollowed := single?_extract h

theorem isFollowed_of_select {t : Traversal} (key : String) (bys : List Traversal)
    (labels : List String) (h : ⟨.modulated (.select ⟨[key], bys⟩), labels⟩ ∈ t.steps) :
    t.IsFollowed := by
  by_cases hlength : t.steps.length = 1
  · obtain ⟨steps⟩ := t
    obtain ⟨s, rfl⟩ := List.length_eq_one_iff.1 hlength
    obtain rfl := List.mem_singleton.1 h
    rw [IsFollowed, extract, extractSteps, SelectStep.single?_extract_of_key]
    cases bys with
    | nil => simp [SelectStep.modulatorFor, Cursor.through?, exprAt?, identity]
    | cons t bys =>
      obtain ⟨steps⟩ := t
      simp [SelectStep.modulatorFor, Cursor.through?, exprAt?]
  · exact isFollowed_of_isChain (isChain_of_length hlength)

theorem isFollowed_of_between {before after : List Step} (s : Step)
    (h : ¬ (before = [] ∧ after = [])) : IsFollowed ⟨before ++ [s] ++ after⟩ := by
  refine isFollowed_of_isChain (isChain_of_length fun hlength => h ?_)
  have hsum : before.length + (after.length + 1) = 1 := by simpa using hlength
  exact ⟨List.eq_nil_of_length_eq_zero (by omega), List.eq_nil_of_length_eq_zero (by omega)⟩

end Traversal

/-- **What fills a gap may be exchanged for what is alike.** Between steps, neither traversal may
have an entry for each of several tags; further in that does not matter. -/
theorem single?_fill (h : Alike xs ys) (g : Gap)
    (hbetween : ∀ before after, g = .between before after →
      (g.fill xs).IsFollowed ∧ (g.fill ys).IsFollowed) :
    (g.fill xs).extract.single? = (g.fill ys).extract.single? := by
  have hfollowed : (g.fill xs).IsFollowed → (g.fill ys).IsFollowed →
      (g.fill xs).extract.single? = (g.fill ys).extract.single? := by
    intro hxs hys
    rw [hxs, hys, alike_fill h g .current]
  cases g with
  | between before after => exact hfollowed (hbetween _ _ rfl).1 (hbetween _ _ rfl).2
  | select before keys bys inner bys' labels after =>
    by_cases hlone : before = [] ∧ after = []
    · obtain ⟨rfl, rfl⟩ := hlone
      exact congrArg _ (SelectStep.extract_of_alike (alike_fill h inner) keys bys bys')
    · exact hfollowed (Traversal.isFollowed_of_between _ hlone)
        (Traversal.isFollowed_of_between _ hlone)
  | dedup before keys inner labels after =>
    by_cases hlone : before = [] ∧ after = []
    · obtain ⟨rfl, rfl⟩ := hlone
      exact congrArg _ (DedupStep.extract_of_alike (alike_fill h inner) keys)
    · exact hfollowed (Traversal.isFollowed_of_between _ hlone)
        (Traversal.isFollowed_of_between _ hlone)

/-- **Behind a `select` of its tag, a modulator has the expression that it has from there.** -/
theorem single?_extract_rootedAt (t : Traversal) {tag : String} (htag : tag ≠ "") :
    (t.rootedAt tag).extract.single? = t.exprAt? tag := by
  have hsteps : (t.rootedAt tag).steps = Traversal.selectTag tag :: t.steps := by
    rw [Traversal.rootedAt, if_neg htag]
  have hfollowed : (t.rootedAt tag).IsFollowed :=
    Traversal.isFollowed_of_select tag [] [] (by rw [hsteps]; exact List.mem_cons_self)
  rw [hfollowed, hsteps, Traversal.selectTag, Step.ofKind, Cursor.through?]
  rfl

/-- **A chain has the same expression however it is written.** In a gap at any depth, a `select` by
a modulator may be written as the `select` and the steps of the modulator, a `has` with a label as a
`hasLabel` and the `has`, and a step that does nothing may be put in or left out, as long as that
makes no lone `select` or `dedup` and undoes none. A modulator has the same expression behind a
`select` of a tag as from the record of the tag. -/
theorem single?_extract_fill :
    (∀ (g : Gap) (key : String) (t : Traversal) (bys : List Traversal)
        (labels labels' : List String),
      (g.fill [⟨.modulated (.select ⟨[key], t :: bys⟩), labels⟩]).extract.single? =
        (g.fill (⟨.modulated (.select ⟨[key], []⟩), labels'⟩ :: t.steps)).extract.single?) ∧
    (∀ (g : Gap) (label key : String) (v : Value) (labels labels₁ labels₂ : List String),
      (g.fill [⟨.elementary (.has (.labelKeyValue label key v)), labels⟩]).extract.single? =
        (g.fill [⟨.elementary (.hasLabel [label]), labels₁⟩,
          ⟨.elementary (.has (.keyValue key v)), labels₂⟩]).extract.single?) ∧
    (∀ (g : Gap) (s : ElementaryStep) (labels : List String), s.isIdle = true →
      ((g.fill [⟨.elementary s, labels⟩]).IsChain ↔ (g.fill []).IsChain) →
      (g.fill [⟨.elementary s, labels⟩]).extract.single? = (g.fill []).extract.single?) ∧
    ∀ (t : Traversal) (tag : String), tag ≠ "" →
      (t.rootedAt tag).extract.single? = t.exprAt? tag := by
  refine ⟨?_, ?_, ?_, fun t tag htag => single?_extract_rootedAt t htag⟩
  · intro g key t bys labels labels'
    refine single?_fill (alike_select key t bys labels labels') g ?_
    rintro before after rfl
    exact ⟨Traversal.isFollowed_of_select key (t :: bys) labels (by simp [Gap.fill]),
      Traversal.isFollowed_of_select key [] labels' (by simp [Gap.fill])⟩
  · intro g label key v labels labels₁ labels₂
    refine single?_fill (alike_has label key v labels labels₁ labels₂) g ?_
    rintro before after rfl
    constructor
    · exact Traversal.isFollowed_of_isChain <|
        Traversal.isChain_of_elementary (.has (.labelKeyValue label key v)) labels
          (by simp [Gap.fill])
    · exact Traversal.isFollowed_of_isChain <|
        Traversal.isChain_of_elementary (.hasLabel [label]) labels₁ (by simp [Gap.fill])
  · intro g s labels hs hchain
    refine single?_fill (alike_idle hs labels) g ?_
    rintro before after rfl
    have hwith : (Gap.fill (.between before after) [⟨.elementary s, labels⟩]).IsChain :=
      Traversal.isChain_of_elementary s labels (by simp [Gap.fill])
    exact ⟨Traversal.isFollowed_of_isChain hwith, Traversal.isFollowed_of_isChain (hchain.1 hwith)⟩

/-- The start of the modulator of a `select` by age, among other steps. -/
def beforeAge : Gap :=
  .select [.ofKind (.elementary .identity)] ["a"] []
    (.between [] [.ofKind (.elementary (.values "age"))]) [] [] []

theorem single?_extract_fill_beforeAge :
    (ElementaryStep.isIdle (.hasLabel []) = true ∧
      ((beforeAge.fill [⟨.elementary (.hasLabel []), []⟩]).IsChain ↔ (beforeAge.fill []).IsChain) ∧
      "b" ≠ "") ∧
    (beforeAge.fill [⟨.elementary (.hasLabel []), []⟩]).extract.single? =
      (beforeAge.fill []).extract.single? ∧
    (beforeAge.fill []).extract.single? = some "@a.age" ∧
    ((Traversal.identity.values "name").rootedAt "b").extract.single? =
      (Traversal.identity.values "name").exprAt? "b" := by
  have hidle : ElementaryStep.isIdle (.hasLabel []) = true := rfl
  have hchain : (beforeAge.fill [⟨.elementary (.hasLabel []), []⟩]).IsChain ↔
      (beforeAge.fill []).IsChain :=
    iff_of_true (fun l => ⟨nofun, nofun⟩) fun l => ⟨nofun, nofun⟩
  have htag : "b" ≠ "" := by decide
  obtain ⟨-, -, hleft, hrooted⟩ := single?_extract_fill
  exact ⟨⟨hidle, hchain, htag⟩, hleft beforeAge _ [] hidle hchain, by cbv,
    hrooted (Traversal.identity.values "name") "b" htag⟩

end TraversalPlan

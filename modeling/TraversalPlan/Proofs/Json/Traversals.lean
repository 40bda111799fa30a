import TraversalPlan.Proofs.Json.Values
import TraversalPlan.Traversal.Document

/-!
# Traversals read back

A step is read by its name alone. No elementary step has the name of a modulated one, so each is read
by its own rule, and a traversal is by induction on its sub-traversals. Labels that are not written
and options that are written as null are read as what they stand for.

* `ElementaryStep.readsAs`: a step without sub-traversals.
* `SelectStep.readsAs`, `SampleStep.readsAs` and so on: what a modulated step carries.
* `Traversal.floats`: the floating-point numbers in a traversal.
* **`Traversal.readsAs`**: a traversal is read back if these numbers survive.
-/

namespace TraversalPlan

open Json

/-! ## Elementary steps -/

namespace HasTest

def floats : HasTest → List Binary64
  | key _ => []
  | keyValue _ v => v.floats
  | keyPredicate _ p => p.floats
  | labelKeyValue _ _ v => v.floats

theorem readsAs {t : HasTest} (h : ∀ x ∈ t.floats, x.Survives) :
    t.toJson.ReadsAs ofDocument? t := by
  cases t with
  | key k =>
    refine .variant (.str k) fun _ => ?_
    rw [document_variant, ofDocument?, Document.textOf?_encode]
    rfl
  | keyValue k v =>
    have hv := Value.readsAs h
    refine .variantArr (by simp [hv.prints, Json.Prints]) fun budget hdepth => ?_
    have hbudget : v.toJson.depth ≤ budget := hdepth _ (by simp)
    rw [document_variant, ofDocument?, Document.textOf?_encode]
    simp [document, documents, hv.reads hbudget, Document.toText?]
  | keyPredicate k p =>
    have hp := Predicate.readsAs h
    refine .variantArr (by simp [hp.prints, Json.Prints]) fun budget hdepth => ?_
    have hbudget : p.toJson.depth ≤ budget := hdepth _ (by simp)
    rw [document_variant, ofDocument?, Document.textOf?_encode]
    simp [document, documents, hp.reads hbudget, Document.toText?]
  | labelKeyValue l k v =>
    have hv := Value.readsAs h
    refine .variantArr (by simp [hv.prints, Json.Prints]) fun budget hdepth => ?_
    have hbudget : v.toJson.depth ≤ budget := hdepth _ (by simp)
    rw [document_variant, ofDocument?, Document.textOf?_encode]
    simp [document, documents, hv.reads hbudget, Document.toText?]

end HasTest

namespace ElementaryStep

def floats : ElementaryStep → List Binary64
  | source _ ids => Value.floatsOf ids
  | has test => test.floats
  | is p => p.floats
  | _ => []

/-- What a step carries is read under the step's name as the step. -/
theorem readsAs_payload {s : ElementaryStep} (h : ∀ x ∈ s.floats, x.Survives) {payload : Json}
    (hpayload : s.payload? = some payload) :
    payload.ReadsAs (fun budget => ofVariant? budget s.keyword) s := by
  cases s with
  | source element ids =>
    obtain rfl := Option.some.inj hpayload
    cases element <;> exact (Value.readsAs_list h).map fun _ => rfl
  | expand direction element labels =>
    obtain rfl := Option.some.inj hpayload
    cases direction <;> cases element <;> exact (ReadsAs.texts labels).map fun _ => rfl
  | has test =>
    obtain rfl := Option.some.inj hpayload
    exact (HasTest.readsAs h).map fun _ => rfl
  | hasLabel labels =>
    obtain rfl := Option.some.inj hpayload
    exact (ReadsAs.texts labels).map fun _ => rfl
  | is p =>
    obtain rfl := Option.some.inj hpayload
    exact (Predicate.readsAs h).map fun _ => rfl
  | values key =>
    obtain rfl := Option.some.inj hpayload
    exact (ReadsAs.str key).map fun _ => rfl
  | limit count =>
    obtain rfl := Option.some.inj hpayload
    exact (ReadsAs.uint64 count).map fun _ => rfl
  | range lower upper =>
    obtain rfl := Option.some.inj hpayload
    refine .arr (by simp [Json.Prints, Json.ofNat]) fun budget _ => ?_
    have hlower := (ReadsAs.uint64 lower).reads (Nat.zero_le budget)
    have hupper := (ReadsAs.uint64 upper).reads (Nat.zero_le budget)
    simp [ofVariant?, keyword, document, documents, Document.pairOf?, hlower, hupper]
  | _ => cases hpayload

/-- A step that carries nothing is read by its name. -/
theorem ofKeyword?_keyword {s : ElementaryStep} (h : s.payload? = none) :
    ofKeyword? s.keyword = some s := by
  cases s with
  | endpoint which => cases which <;> rfl
  | reduce r => cases r <;> rfl
  | id => rfl
  | label => rfl
  | identity => rfl
  | _ => cases h

/-- No step has the name of a modulated one. -/
theorem stepKind_ofVariant? (s : ElementaryStep) (budget : Nat) (d : Document) :
    StepKind.ofDocument? (budget + 1) (.object [(Quoted.encode s.keyword.toList, d)]) =
      (ofVariant? budget s.keyword d).map .elementary := by
  rw [StepKind.ofDocument?, Document.textOf?_encode, Option.map_eq_bind]
  -- the names of modulated steps come first, and each of these names is compared with them
  cases s with
  | source element => cases element <;> rfl
  | expand direction element => cases direction <;> cases element <;> rfl
  | endpoint which => cases which <;> rfl
  | reduce r => cases r <;> rfl
  | _ => rfl

/-- **An elementary step is read back.** -/
theorem readsAs {s : ElementaryStep} (h : ∀ x ∈ s.floats, x.Survives) :
    s.toJson.ReadsAs StepKind.ofDocument? (.elementary s) := by
  rw [toJson]
  cases hpayload : s.payload? with
  | none =>
    refine ⟨trivial, fun {budget} _ => ?_⟩
    rw [document, StepKind.ofDocument?, Document.textOf?_encode]
    simp [ofKeyword?_keyword hpayload]
  | some payload => exact .variant (readsAs_payload h hpayload) fun _ => s.stepKind_ofVariant? _ _

end ElementaryStep

/-! ## Lists and options of traversals -/

theorem stepsToJson_eq (steps : List Step) : stepsToJson steps = steps.map Step.toJson := by
  induction steps with
  | nil => rfl
  | cons s steps ih => rw [stepsToJson, ih, List.map_cons]

theorem traversalsToJson_eq (ts : List Traversal) :
    traversalsToJson ts = ts.map Traversal.toJson := by
  induction ts with
  | nil => rfl
  | cons t ts ih => rw [traversalsToJson, ih, List.map_cons]

theorem comparatorsToJson_eq (cs : List Comparator) :
    comparatorsToJson cs = cs.map Comparator.toJson := by
  induction cs with
  | nil => rfl
  | cons c cs ih => rw [comparatorsToJson, ih, List.map_cons]

theorem modulatorToJson_eq (t? : Option Traversal) :
    modulatorToJson t? = .ofOption Traversal.toJson t? := by
  cases t? <;> rfl

theorem stepsOf?_eq : stepsOf? = Document.itemsOf? Step.ofDocument? := by
  funext budget
  cases budget <;> rfl

theorem traversalsOf?_eq : traversalsOf? = Document.itemsOf? Traversal.ofDocument? := by
  funext budget
  cases budget <;> rfl

theorem comparatorsOf?_eq : comparatorsOf? = Document.itemsOf? comparatorOf? := by
  funext budget
  cases budget <;> rfl

theorem readsAs_steps {steps : List Step}
    (h : ∀ s ∈ steps, s.toJson.ReadsAs Step.ofDocument? s) :
    (Json.arr (stepsToJson steps)).ReadsAs stepsOf? steps := by
  rw [stepsToJson_eq, stepsOf?_eq]
  exact .ofList h

theorem readsAs_traversals {ts : List Traversal}
    (h : ∀ t ∈ ts, t.toJson.ReadsAs Traversal.ofDocument? t) :
    (Json.arr (traversalsToJson ts)).ReadsAs traversalsOf? ts := by
  rw [traversalsToJson_eq, traversalsOf?_eq]
  exact .ofList h

theorem readsAs_comparators {cs : List Comparator}
    (h : ∀ c ∈ cs, c.toJson.ReadsAs comparatorOf? c) :
    (Json.arr (comparatorsToJson cs)).ReadsAs comparatorsOf? cs := by
  rw [comparatorsToJson_eq, comparatorsOf?_eq]
  exact .ofList h

/-- A missing modulator is written as null, and a given one as an object. -/
theorem readsAs_modulator {t? : Option Traversal}
    (h : ∀ t ∈ t?, t.toJson.ReadsAs Traversal.ofDocument? t) :
    (modulatorToJson t?).ReadsAs
      (fun budget => Document.optionOf? (Traversal.ofDocument? budget)) t? := by
  rw [modulatorToJson_eq]
  exact .ofOption t? fun t ht => ⟨h t ht, by cases t; nofun⟩

/-! ## Records -/

theorem Step.readsAs {kind : StepKind} (h : kind.toJson.ReadsAs StepKind.ofDocument? kind)
    (labels : List String) :
    (Step.toJson ⟨kind, labels⟩).ReadsAs Step.ofDocument? ⟨kind, labels⟩ := by
  cases labels with
  | nil =>
    -- the field is left out, and its default is no labels
    refine .obj (by simp [h.prints]) fun budget hdepth => ?_
    simp only [List.forall_mem_cons] at hdepth
    obtain ⟨dkind, -⟩ := hdepth
    rw [Step.ofDocument?, Document.record?_obj (by simp)]
    simp [Document.orDefault?, h.reads dkind]
  | cons label labels =>
    have hlabels := ReadsAs.texts (label :: labels)
    refine .obj (by simp [h.prints, hlabels.prints]) fun budget hdepth => ?_
    simp only [List.forall_mem_cons] at hdepth
    obtain ⟨dkind, dlabels, -⟩ := hdepth
    rw [Step.ofDocument?, Document.record?_obj (by simp)]
    simp [Document.orDefault?, h.reads dkind, hlabels.reads dlabels]

theorem SelectStep.readsAs (keys : List String) {bys : List Traversal}
    (h : ∀ t ∈ bys, t.toJson.ReadsAs Traversal.ofDocument? t) :
    (Json.obj [("keys", .ofList .str keys), ("bys", .arr (traversalsToJson bys))]).ReadsAs
      selectOf? ⟨keys, bys⟩ := by
  have hkeys := ReadsAs.texts keys
  have hbys := readsAs_traversals h
  refine .obj (by simp [hkeys.prints, hbys.prints]) fun budget hdepth => ?_
  simp only [List.forall_mem_cons] at hdepth
  obtain ⟨dkeys, dbys, -⟩ := hdepth
  rw [selectOf?, Document.record?_obj (by simp)]
  simp [Document.orDefault?, hkeys.reads dkeys, hbys.reads dbys]

theorem DedupStep.readsAs (keys : List String) {modulator : Option Traversal}
    (h : ∀ t ∈ modulator, t.toJson.ReadsAs Traversal.ofDocument? t) :
    (Json.obj [("keys", .ofList .str keys), ("by", modulatorToJson modulator)]).ReadsAs
      dedupOf? ⟨keys, modulator⟩ := by
  have hkeys := ReadsAs.texts keys
  have hmodulator := readsAs_modulator h
  refine .obj (by simp [hkeys.prints, hmodulator.prints]) fun budget hdepth => ?_
  simp only [List.forall_mem_cons] at hdepth
  obtain ⟨dkeys, dmodulator, -⟩ := hdepth
  rw [dedupOf?, Document.record?_obj (by simp)]
  simp [Document.orDefault?, hkeys.reads dkeys, hmodulator.reads dmodulator]

theorem SampleStep.readsAs {amount : Binary64} (hamount : amount.Survives) (seed : Option UInt64)
    {modulator : Option Traversal}
    (h : ∀ t ∈ modulator, t.toJson.ReadsAs Traversal.ofDocument? t) :
    (Json.obj [("amount", .ofFloat amount), ("seed", .ofOption (fun n => .ofNat n.toNat) seed),
      ("by", modulatorToJson modulator)]).ReadsAs sampleOf? ⟨amount, seed, modulator⟩ := by
  have hamount := ReadsAs.float hamount
  have hseed := ReadsAs.ofOption seed fun n _ => ⟨ReadsAs.uint64 n, nofun⟩
  have hmodulator := readsAs_modulator h
  refine .obj (by simp [hamount.prints, hseed.prints, hmodulator.prints]) fun budget hdepth => ?_
  simp only [List.forall_mem_cons] at hdepth
  obtain ⟨damount, dseed, dmodulator, -⟩ := hdepth
  rw [sampleOf?, Document.record?_obj (by simp)]
  simp [Document.orDefault?, hamount.reads damount, hseed.reads dseed, hmodulator.reads dmodulator]

theorem Comparator.readsAs {key : Traversal} (h : key.toJson.ReadsAs Traversal.ofDocument? key)
    (order : SortOrder) :
    (Comparator.toJson ⟨key, order⟩).ReadsAs comparatorOf? ⟨key, order⟩ := by
  refine .obj (by simp [h.prints, Json.Prints]) fun budget hdepth => ?_
  simp only [List.forall_mem_cons] at hdepth
  obtain ⟨dkey, -⟩ := hdepth
  have horder : Document.choice? SortOrder.all SortOrder.keyword budget
      (Json.str order.keyword).document = some order :=
    Document.choice?_name (by cases order <;> decide) budget
  rw [comparatorOf?, Document.record?_obj (by simp)]
  simp [Document.orDefault?, h.reads dkey, horder]

theorem OrderStep.readsAs {comparators : List Comparator}
    (h : ∀ c ∈ comparators, c.toJson.ReadsAs comparatorOf? c) :
    (Json.obj [("comparators", .arr (comparatorsToJson comparators))]).ReadsAs orderOf?
      ⟨comparators⟩ := by
  have hcomparators := readsAs_comparators h
  refine .obj (by simp [hcomparators.prints]) fun budget hdepth => ?_
  simp only [List.forall_mem_cons] at hdepth
  rw [orderOf?, Document.record?_obj (by simp)]
  simp [Document.orDefault?, hcomparators.reads hdepth.1]

theorem GroupStep.readsAs {keys values : List Traversal}
    (hkeys : ∀ t ∈ keys, t.toJson.ReadsAs Traversal.ofDocument? t)
    (hvalues : ∀ t ∈ values, t.toJson.ReadsAs Traversal.ofDocument? t) (count : Bool) :
    (Json.obj [("keys", .arr (traversalsToJson keys)), ("values", .arr (traversalsToJson values)),
      ("count", .bool count)]).ReadsAs groupOf? ⟨keys, values, count⟩ := by
  have hkeys := readsAs_traversals hkeys
  have hvalues := readsAs_traversals hvalues
  have hcount := ReadsAs.bool count
  refine .obj (by simp [hkeys.prints, hvalues.prints, hcount.prints]) fun budget hdepth => ?_
  simp only [List.forall_mem_cons] at hdepth
  obtain ⟨dkeys, dvalues, dcount, -⟩ := hdepth
  rw [groupOf?, Document.record?_obj (by simp)]
  simp [Document.orDefault?, hkeys.reads dkeys, hvalues.reads dvalues, hcount.reads dcount]

theorem WherePredicateStep.readsAs (startKey : Option String) {predicate : Predicate}
    (hpredicate : ∀ x ∈ predicate.floats, x.Survives) (selectKeys : List String)
    {bys : List Traversal} (h : ∀ t ∈ bys, t.toJson.ReadsAs Traversal.ofDocument? t) :
    (Json.obj [("start_key", .ofOption .str startKey), ("predicate", predicate.toJson),
      ("select_keys", .ofList .str selectKeys), ("bys", .arr (traversalsToJson bys))]).ReadsAs
      wherePredicateOf? ⟨startKey, predicate, selectKeys, bys⟩ := by
  have hstart := ReadsAs.ofOption startKey fun s _ => ⟨ReadsAs.str s, nofun⟩
  have hpredicate := Predicate.readsAs hpredicate
  have hkeys := ReadsAs.texts selectKeys
  have hbys := readsAs_traversals h
  refine .obj (by simp [hstart.prints, hpredicate.prints, hkeys.prints, hbys.prints])
    fun budget hdepth => ?_
  simp only [List.forall_mem_cons] at hdepth
  obtain ⟨dstart, dpredicate, dkeys, dbys, -⟩ := hdepth
  rw [wherePredicateOf?, Document.record?_obj (by simp)]
  simp [Document.orDefault?, hstart.reads dstart, hpredicate.reads dpredicate, hkeys.reads dkeys,
    hbys.reads dbys]

theorem Traversal.readsAs_of_steps {steps : List Step}
    (h : ∀ s ∈ steps, s.toJson.ReadsAs Step.ofDocument? s) :
    (Traversal.toJson ⟨steps⟩).ReadsAs Traversal.ofDocument? ⟨steps⟩ := by
  rw [Traversal.toJson]
  have hsteps := readsAs_steps h
  refine .obj (by simp [hsteps.prints]) fun budget hdepth => ?_
  simp only [List.forall_mem_cons] at hdepth
  rw [Traversal.ofDocument?, Document.record?_obj (by simp)]
  simp [Document.orDefault?, hsteps.reads hdepth.1]

/-- A modulated step is read under its name from what it carries. -/
theorem Json.ReadsAs.modulated {α : Type} {name : String} {j : Json}
    {carriedOf? : Nat → Document → Option α} {a : α} (f : α → ModulatedStep)
    (hj : j.ReadsAs carriedOf? a)
    (h : ∀ budget d, StepKind.ofDocument? (budget + 1) (.object [(Quoted.encode name.toList, d)]) =
      (carriedOf? budget d).bind fun s => some (.modulated (f s))) :
    (Json.variant name j).ReadsAs StepKind.ofDocument? (.modulated (f a)) := by
  refine .variant (f := fun s => StepKind.modulated (f s)) hj fun budget => ?_
  rw [document_variant, h, Option.map_eq_bind]
  rfl

/-! ## Traversals -/

mutual

/-- The floating-point numbers in a traversal. -/
def Traversal.floats : Traversal → List Binary64
  | ⟨steps⟩ => stepsFloats steps

def stepsFloats : List Step → List Binary64
  | [] => []
  | s :: rest => Step.floats s ++ stepsFloats rest

def Step.floats : Step → List Binary64
  | ⟨kind, _⟩ => StepKind.floats kind

def StepKind.floats : StepKind → List Binary64
  | .elementary s => s.floats
  | .modulated m => ModulatedStep.floats m

def ModulatedStep.floats : ModulatedStep → List Binary64
  | .select ⟨_, bys⟩ => traversalsFloats bys
  | .dedup ⟨_, modulator⟩ => modulatorFloats modulator
  | .sample ⟨amount, _, modulator⟩ => amount :: modulatorFloats modulator
  | .order ⟨comparators⟩ => comparatorsFloats comparators
  | .group ⟨keys, values, _⟩ => traversalsFloats keys ++ traversalsFloats values
  | .wherePredicate ⟨_, predicate, _, bys⟩ => predicate.floats ++ traversalsFloats bys
  | .whereTraversal t => Traversal.floats t
  | .not t => Traversal.floats t

def modulatorFloats : Option Traversal → List Binary64
  | none => []
  | some t => Traversal.floats t

def traversalsFloats : List Traversal → List Binary64
  | [] => []
  | t :: rest => Traversal.floats t ++ traversalsFloats rest

def comparatorsFloats : List Comparator → List Binary64
  | [] => []
  | ⟨key, _⟩ :: rest => Traversal.floats key ++ comparatorsFloats rest

end

-- By induction on the traversal: each step is read from its parts, and no part is larger than it.
mutual

/-- **A traversal is read back.** -/
theorem Traversal.readsAs : ∀ {t : Traversal}, (∀ x ∈ t.floats, x.Survives) →
    t.toJson.ReadsAs Traversal.ofDocument? t
  | ⟨_⟩, h => Traversal.readsAs_of_steps (stepsReadAs h)

theorem stepsReadAs : ∀ {steps : List Step}, (∀ x ∈ stepsFloats steps, x.Survives) →
    ∀ s ∈ steps, s.toJson.ReadsAs Step.ofDocument? s
  | [], _ => List.forall_mem_nil _
  | ⟨kind, labels⟩ :: rest, h => by
    obtain ⟨hs, hrest⟩ := List.forall_mem_append.1 h
    exact List.forall_mem_cons.2
      ⟨Step.readsAs (StepKind.readsAs hs) labels, stepsReadAs hrest⟩

theorem StepKind.readsAs : ∀ {kind : StepKind}, (∀ x ∈ kind.floats, x.Survives) →
    kind.toJson.ReadsAs StepKind.ofDocument? kind
  | .elementary _, h => ElementaryStep.readsAs h
  | .modulated _, h => ModulatedStep.readsAs h

theorem ModulatedStep.readsAs : ∀ {m : ModulatedStep}, (∀ x ∈ m.floats, x.Survives) →
    m.toJson.ReadsAs StepKind.ofDocument? (.modulated m)
  | .select ⟨keys, _⟩, h => by
    rw [ModulatedStep.toJson]
    refine .modulated .select (SelectStep.readsAs keys (traversalsReadAs h)) fun _ _ => ?_
    rw [StepKind.ofDocument?, Document.textOf?_encode]
    rfl
  | .dedup ⟨keys, _⟩, h => by
    rw [ModulatedStep.toJson]
    refine .modulated .dedup (DedupStep.readsAs keys (modulatorReadsAs h)) fun _ _ => ?_
    rw [StepKind.ofDocument?, Document.textOf?_encode]
    rfl
  | .sample ⟨_, seed, _⟩, h => by
    rw [ModulatedStep.toJson]
    obtain ⟨hamount, hmodulator⟩ := List.forall_mem_cons.1 h
    refine .modulated .sample (SampleStep.readsAs hamount seed (modulatorReadsAs hmodulator))
      fun _ _ => ?_
    rw [StepKind.ofDocument?, Document.textOf?_encode]
    rfl
  | .order ⟨_⟩, h => by
    rw [ModulatedStep.toJson]
    refine .modulated .order (OrderStep.readsAs (comparatorsReadAs h)) fun _ _ => ?_
    rw [StepKind.ofDocument?, Document.textOf?_encode]
    rfl
  | .group ⟨_, _, count⟩, h => by
    rw [ModulatedStep.toJson]
    obtain ⟨hkeys, hvalues⟩ := List.forall_mem_append.1 h
    refine .modulated .group
      (GroupStep.readsAs (traversalsReadAs hkeys) (traversalsReadAs hvalues) count) fun _ _ => ?_
    rw [StepKind.ofDocument?, Document.textOf?_encode]
    rfl
  | .wherePredicate ⟨startKey, _, selectKeys, _⟩, h => by
    rw [ModulatedStep.toJson]
    obtain ⟨hpredicate, hbys⟩ := List.forall_mem_append.1 h
    refine .modulated .wherePredicate
      (WherePredicateStep.readsAs startKey hpredicate selectKeys (traversalsReadAs hbys))
      fun _ _ => ?_
    rw [StepKind.ofDocument?, Document.textOf?_encode]
    rfl
  | .whereTraversal _, h => by
    rw [ModulatedStep.toJson]
    refine .modulated .whereTraversal (Traversal.readsAs h) fun _ _ => ?_
    rw [StepKind.ofDocument?, Document.textOf?_encode]
    rfl
  | .not _, h => by
    rw [ModulatedStep.toJson]
    refine .modulated .not (Traversal.readsAs h) fun _ _ => ?_
    rw [StepKind.ofDocument?, Document.textOf?_encode]
    rfl

theorem modulatorReadsAs : ∀ {t? : Option Traversal}, (∀ x ∈ modulatorFloats t?, x.Survives) →
    ∀ t ∈ t?, t.toJson.ReadsAs Traversal.ofDocument? t
  | none, _ => nofun
  | some _, h => fun _ ht => Option.some.inj ht ▸ Traversal.readsAs h

theorem traversalsReadAs : ∀ {ts : List Traversal}, (∀ x ∈ traversalsFloats ts, x.Survives) →
    ∀ t ∈ ts, t.toJson.ReadsAs Traversal.ofDocument? t
  | [], _ => List.forall_mem_nil _
  | t :: rest, h => by
    obtain ⟨ht, hrest⟩ := List.forall_mem_append.1 h
    exact List.forall_mem_cons.2 ⟨Traversal.readsAs ht, traversalsReadAs hrest⟩

theorem comparatorsReadAs : ∀ {cs : List Comparator},
    (∀ x ∈ comparatorsFloats cs, x.Survives) → ∀ c ∈ cs, c.toJson.ReadsAs comparatorOf? c
  | [], _ => List.forall_mem_nil _
  | ⟨key, order⟩ :: rest, h => by
    obtain ⟨hc, hrest⟩ := List.forall_mem_append.1 h
    exact List.forall_mem_cons.2
      ⟨Comparator.readsAs (Traversal.readsAs hc) order, comparatorsReadAs hrest⟩

end

end TraversalPlan

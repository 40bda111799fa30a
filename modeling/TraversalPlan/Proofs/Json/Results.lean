import TraversalPlan.Lowering.Config
import TraversalPlan.Position
import TraversalPlan.Proofs.Json.Values
import TraversalPlan.Result.Document

/-!
# Results and options read back

A map is read with its entries in the order in which they are written, and a tag that is a name of a
field is read as the number that it spells.

* `Document.mapOf?_obj`: a map whose keys and values are read back.
* `QueryResult.floats`: the floating-point numbers in a batch.
* **`QueryResult.readsAs`**, **`TagTable.readsAs`**: batches and tag tables.
* `Config.readsAs`, `Position.readsAs`: options of lowering and positions of steps.
-/

namespace TraversalPlan

open Json

/-! ## Maps -/

/-- **A map is read back, with its entries in their order.** -/
theorem Document.mapOf?_obj {κ ν : Type} [DecidableEq κ] {key : List Char → Option κ}
    {value : Document → Option ν} {name : κ → String} {write : ν → Json} (m : OrderedMap κ ν)
    (hkey : ∀ k, key (Quoted.encode (name k).toList) = some k)
    (hvalue : ∀ e ∈ m.entries, value (write e.2).document = some e.2) :
    mapOf? key value (Json.obj (m.entries.map fun e => (name e.1, write e.2))).document =
      some m := by
  have hmap : OrderedMap.ofList m.entries = m :=
    OrderedMap.ext (OrderedMap.entries_ofList m.distinct)
  rw [document, mapOf?, fieldDocuments_eq, List.map_map, List.mapM_map,
    mapM_eq_some_map (f := id), List.map_id, Option.bind_eq_bind, Option.bind_some, hmap]
  · rfl
  · exact fun e he => by simp [hkey, hvalue e he]

/-! ## Elements -/

namespace GraphElement

theorem readsAs (e : GraphElement) : e.toJson.ReadsAs ofDocument? e := by
  cases e with
  | vertex id =>
    refine .variantObj (by simp [Json.Prints]) fun budget _ => ?_
    have hid := (ReadsAs.int64 id).reads (Nat.zero_le budget)
    rw [document_variant, ofDocument?, Document.textOf?_encode]
    simp [Document.record?_obj, hid]
  | edge source target =>
    refine .variantObj (by simp [Json.Prints]) fun budget _ => ?_
    have hsource := (ReadsAs.int64 source).reads (Nat.zero_le budget)
    have htarget := (ReadsAs.int64 target).reads (Nat.zero_le budget)
    rw [document_variant, ofDocument?, Document.textOf?_encode]
    simp [Document.record?_obj, hsource, htarget]
  | unset =>
    refine ⟨trivial, fun _ => ?_⟩
    rw [toJson, document, ofDocument?, Document.textOf?_encode]
    rfl

theorem listOf?_eq : listOf? = Document.itemsOf? ofDocument? := by
  funext budget
  cases budget <;> rfl

theorem readsAs_list (es : List GraphElement) : (Json.ofList toJson es).ReadsAs listOf? es := by
  rw [listOf?_eq]
  exact .ofList fun e _ => e.readsAs

end GraphElement

/-! ## Tag entries and pairs -/

namespace TagValue

def floats : TagValue → List Binary64
  | element _ => []
  | value v => v.floats
  | properties m => m.entries.flatMap fun e => e.2.floats

theorem readsAs {v : TagValue} (h : ∀ x ∈ v.floats, x.Survives) :
    v.toJson.ReadsAs ofDocument? v := by
  cases v with
  | element e =>
    refine .variant e.readsAs fun _ => ?_
    rw [document_variant, ofDocument?, Document.textOf?_encode]
    rfl
  | value v =>
    refine .variant (Value.readsAs h) fun _ => ?_
    rw [document_variant, ofDocument?, Document.textOf?_encode]
    rfl
  | properties m =>
    have hvalues : ∀ e ∈ m.entries, e.2.toJson.ReadsAs Value.ofDocument? e.2 := fun e he =>
      Value.readsAs fun x hx => h x (List.mem_flatMap.2 ⟨e, he, hx⟩)
    refine .variantObj ?_ fun budget hdepth => ?_
    · rw [List.forall_mem_map]
      exact fun e he => (hvalues e he).prints
    · rw [List.forall_mem_map] at hdepth
      rw [document_variant, ofDocument?, Document.textOf?_encode]
      have hm := Document.mapOf?_obj m Document.textOf?_encode fun e he =>
        (hvalues e he).reads (hdepth e he)
      simp [hm]

end TagValue

namespace TagEntry

def floats (e : TagEntry) : List Binary64 := e.value.floats

theorem readsAs {e : TagEntry} (h : ∀ x ∈ e.floats, x.Survives) :
    e.toJson.ReadsAs ofDocument? e := by
  have htag := ReadsAs.uint32 e.tag
  have hvalue := TagValue.readsAs h
  refine .obj (by simp [htag.prints, hvalue.prints]) fun budget hdepth => ?_
  simp only [List.forall_mem_cons] at hdepth
  obtain ⟨dtag, dvalue, -⟩ := hdepth
  rw [ofDocument?, Document.record?_obj (by simp)]
  simp [htag.reads dtag, hvalue.reads dvalue]

theorem listOf?_eq : listOf? = Document.itemsOf? ofDocument? := by
  funext budget
  cases budget <;> rfl

end TagEntry

namespace PairElement

def floats : PairElement → List Binary64
  | element _ => []
  | value v => v.floats
  | elements _ => []
  | values vs => Value.floatsOf vs

theorem readsAs {p : PairElement} (h : ∀ x ∈ p.floats, x.Survives) :
    p.toJson.ReadsAs ofDocument? p := by
  cases p with
  | element e =>
    refine .variant e.readsAs fun _ => ?_
    rw [document_variant, ofDocument?, Document.textOf?_encode]
    rfl
  | value v =>
    refine .variant (Value.readsAs h) fun _ => ?_
    rw [document_variant, ofDocument?, Document.textOf?_encode]
    rfl
  | elements es =>
    refine .variant (GraphElement.readsAs_list es) fun _ => ?_
    rw [document_variant, ofDocument?, Document.textOf?_encode]
    rfl
  | values vs =>
    refine .variant (Value.readsAs_list h) fun _ => ?_
    rw [document_variant, ofDocument?, Document.textOf?_encode]
    rfl

end PairElement

namespace PairEntry

def floats (p : PairEntry) : List Binary64 := p.first.floats ++ p.second.floats

theorem readsAs {p : PairEntry} (h : ∀ x ∈ p.floats, x.Survives) :
    p.toJson.ReadsAs ofDocument? p := by
  obtain ⟨hfirst, hsecond⟩ := List.forall_mem_append.1 h
  have hfirst := PairElement.readsAs hfirst
  have hsecond := PairElement.readsAs hsecond
  refine .obj (by simp [hfirst.prints, hsecond.prints]) fun budget hdepth => ?_
  simp only [List.forall_mem_cons] at hdepth
  obtain ⟨dfirst, dsecond, -⟩ := hdepth
  rw [ofDocument?, Document.record?_obj (by simp)]
  simp [hfirst.reads dfirst, hsecond.reads dsecond]

end PairEntry

/-! ## Batches -/

namespace QueryResult

/-- The floating-point numbers in a batch. -/
def floats : QueryResult → List Binary64
  | paths _ => []
  | elements _ => []
  | tagEntries records => records.flatten.flatMap TagEntry.floats
  | pairs ps => ps.flatMap PairEntry.floats
  | value v => v.floats
  | values vs => Value.floatsOf vs

/-- **A batch is read back.** -/
theorem readsAs {r : QueryResult} (h : ∀ x ∈ r.floats, x.Survives) :
    r.toJson.ReadsAs ofDocument? r := by
  cases r with
  | paths ps =>
    refine .variant (.ofList fun es _ => GraphElement.readsAs_list es) fun budget => ?_
    rw [document_variant, ofDocument?, Document.textOf?_encode]
    cases budget <;> rfl
  | elements es =>
    refine .variant (GraphElement.readsAs_list es) fun _ => ?_
    rw [document_variant, ofDocument?, Document.textOf?_encode]
    rfl
  | tagEntries records =>
    have hrecords : ∀ es ∈ records,
        (Json.ofList TagEntry.toJson es).ReadsAs TagEntry.listOf? es := by
      intro es hes
      rw [TagEntry.listOf?_eq]
      exact .ofList fun e he => TagEntry.readsAs fun x hx =>
        h x (List.mem_flatMap.2 ⟨e, List.mem_flatten.2 ⟨es, hes, he⟩, hx⟩)
    refine .variant (.ofList hrecords) fun budget => ?_
    rw [document_variant, ofDocument?, Document.textOf?_encode]
    cases budget <;> rfl
  | pairs ps =>
    have hpairs : ∀ p ∈ ps, p.toJson.ReadsAs PairEntry.ofDocument? p := fun p hp =>
      PairEntry.readsAs fun x hx => h x (List.mem_flatMap.2 ⟨p, hp, hx⟩)
    refine .variant (.ofList hpairs) fun budget => ?_
    rw [document_variant, ofDocument?, Document.textOf?_encode]
    cases budget <;> rfl
  | value v =>
    refine .variant (Value.readsAs h) fun _ => ?_
    rw [document_variant, ofDocument?, Document.textOf?_encode]
    rfl
  | values vs =>
    refine .variant (Value.readsAs_list h) fun _ => ?_
    rw [document_variant, ofDocument?, Document.textOf?_encode]
    rfl

end QueryResult

/-! ## Tag tables -/

namespace TagTable

theorem idOf?_encode (id : UInt32) : idOf? (Quoted.encode id.toNat.repr.toList) = some id := by
  have hdigits : ∀ c ∈ Nat.toDigits 10 id.toNat, c.isDigit = true := fun c hc =>
    Nat.isDigit_of_mem_toDigits (by decide) (by decide) hc
  have hencode := Quoted.encode_of_isDigit hdigits
  have hzero : ¬ ((Nat.toDigits 10 id.toNat).head? = some '0' ∧
      1 < (Nat.toDigits 10 id.toNat).length) := by
    rintro ⟨hhead, hlength⟩
    obtain ⟨cs, hcs⟩ := List.head?_eq_some_iff.1 hhead
    rw [Document.eq_zero_of_toDigits hcs] at hlength
    exact absurd hlength (by decide)
  have hvalue : Nat.ofDigitChars 10 (Nat.toDigits 10 id.toNat) 0 = id.toNat :=
    Nat.ofDigitChars_toDigits (by decide) (by decide)
  have hall : (Nat.toDigits 10 id.toNat).all Char.isDigit = true := List.all_eq_true.2 hdigits
  -- a zero in front would be refused, but only zero itself begins with one
  rw [Nat.toList_repr, hencode, idOf?, if_neg hzero]
  simp [hall, hvalue, id.toNat_lt]

/-- **A tag table is read back.** -/
theorem readsAs (t : TagTable) : t.toJson.ReadsAs ofDocument? t := by
  refine .obj ?_ fun budget _ => ?_
  · rw [List.forall_mem_map]
    exact fun _ _ => trivial
  · rw [ofDocument?]
    exact Document.mapOf?_obj t idOf?_encode fun e _ => Document.textOf?_encode e.2

end TagTable

/-! ## Options and positions -/

theorem Config.readsAs (c : Config) : c.toJson.ReadsAs ofDocument? c := by
  refine .obj (by simp [Json.Prints, Json.ofNat]) fun budget _ => ?_
  have hpolicy : ModulatorPolicy.ofDocument? budget (Json.str c.policy.name).document =
      some c.policy := Document.choice?_name (by cases c.policy <;> decide) budget
  have hseed := (ReadsAs.uint64 c.defaultSampleSeed).reads (Nat.zero_le budget)
  have hparallel := (ReadsAs.bool c.parallel).reads (Nat.zero_le budget)
  rw [ofDocument?, Document.record?_obj (by simp)]
  simp [Document.orDefault?, hpolicy, hseed, hparallel]

theorem Position.readsAs (p : Position) : p.toJson.ReadsAs ofDocument? p := by
  have hpath : (Json.ofList (fun i => Json.ofNat (UInt32.toNat i)) p.path).ReadsAs
      (Document.itemsOf? fun _ => Document.toUInt32?) p.path := .ofList fun i _ => .uint32 i
  refine .obj (by simp [hpath.prints]) fun budget hdepth => ?_
  simp only [List.forall_mem_cons] at hdepth
  cases budget with
  | zero => exact absurd hdepth.1 (Nat.not_succ_le_zero _)
  | succ budget =>
    have hread := hpath.reads hdepth.1
    rw [Document.itemsOf?] at hread
    rw [ofDocument?, Document.record?_obj (by simp)]
    simp [hread]

end TraversalPlan

import TraversalPlan.Json.Reading
import TraversalPlan.Proofs.Json.Documents

/-!
# Reading parts back

A reader gives back what was written if it gives back the parts: the items of an array, the fields of
an object and what a variant carries. The budget of a reader need only cover the brackets that the
value opens.

* `Json.ReadsAs`: the document of a value is read as something, under every budget that suffices.
* `ReadsAs.str`, `ReadsAs.uint64`, `ReadsAs.int64`, `ReadsAs.float`: leaves.
* `ReadsAs.arr`, `ReadsAs.obj`, `ReadsAs.variant`: values that hold others.
* `Document.record?_obj`: the fields of a written object, by name.
* **`ReadsAs.parse`**: what the text of a value is read as.
-/

namespace TraversalPlan

theorem mapM_eq_some_map {α β : Type} {read : α → Option β} {f : α → β} {as : List α}
    (h : ∀ a ∈ as, read a = some (f a)) : as.mapM read = some (as.map f) := by
  induction as with
  | nil => rfl
  | cons a as ih =>
    obtain ⟨ha, has⟩ := List.forall_mem_cons.1 h
    simp [ha, ih has]

namespace Document

@[simp]
theorem textOf?_encode (s : String) : textOf? (Quoted.encode s.toList) = some s := by
  rw [textOf?, Quoted.decode_encode, Option.map_some, String.ofList_toList]

/-- A list whose items are each read in the same way, with a budget of open brackets. -/
def itemsOf? {α : Type} (read : Nat → Document → Option α) : Nat → Document → Option (List α)
  | 0, _ => none
  | budget + 1, d => d.listOf? (read budget)

theorem texts?_eq : texts? = itemsOf? fun _ => toText? := by
  funext budget
  cases budget <;> rfl

end Document

/-- An integer of 64 bits is read as a negative number, or as a natural one that fits. -/
theorem Number.ofLiteral?_int64 (i : Int64) :
    ofLiteral? (Numeral.chars i.toInt) = some (.negative i) ∨
      ∃ n, ofLiteral? (Numeral.chars i.toInt) = some (.natural n) ∧
        n.toNat < 0x8000000000000000 ∧ n.toInt64 = i := by
  by_cases hi : i.toInt < 0
  · left
    rw [ofLiteral?_chars_negative hi i.le_toInt, Int64.ofInt_toInt]
  · right
    have hlt := i.toInt_lt
    have hnat : (i.toInt.toNat : Int) = i.toInt := Int.toNat_of_nonneg (by omega)
    have hsize : i.toInt.toNat < UInt64.size := by
      unfold UInt64.size
      omega
    refine ⟨UInt64.ofNat i.toInt.toNat, ?_, ?_, ?_⟩
    · rw [← ofLiteral?_chars_natural hsize, hnat]
    · rw [UInt64.toNat_ofNat_of_lt' hsize]
      omega
    · rw [UInt64.toInt64_ofNat', ← Int64.ofInt_eq_ofNat, hnat, Int64.ofInt_toInt]

namespace Json

theorem allPrint_iff {js : List Json} : AllPrint js ↔ ∀ j ∈ js, j.Prints := by
  induction js with
  | nil => simp [AllPrint]
  | cons j js ih => rw [AllPrint, ih, List.forall_mem_cons]

theorem itemsDepth_le_iff {js : List Json} {n : Nat} :
    itemsDepth js ≤ n ↔ ∀ j ∈ js, j.depth ≤ n := by
  induction js with
  | nil => simp [itemsDepth]
  | cons j js ih => rw [itemsDepth, Nat.max_le, ih, List.forall_mem_cons]

theorem fieldsPrint_iff {fields : List (String × Json)} :
    FieldsPrint fields ↔ ∀ f ∈ fields, f.2.Prints := by
  induction fields with
  | nil => simp [FieldsPrint]
  | cons f fields ih => rw [FieldsPrint, ih, List.forall_mem_cons]

theorem fieldsDepth_le_iff {fields : List (String × Json)} {n : Nat} :
    fieldsDepth fields ≤ n ↔ ∀ f ∈ fields, f.2.depth ≤ n := by
  induction fields with
  | nil => simp [fieldsDepth]
  | cons f fields ih => rw [fieldsDepth, Nat.max_le, ih, List.forall_mem_cons]

theorem documents_eq (js : List Json) : documents js = js.map document := by
  induction js with
  | nil => rfl
  | cons j js ih => rw [documents, ih, List.map_cons]

theorem fieldDocuments_eq (fields : List (String × Json)) :
    fieldDocuments fields = fields.map fun f => (Quoted.encode f.1.toList, f.2.document) := by
  induction fields with
  | nil => rfl
  | cons f fields ih => rw [fieldDocuments, ih, List.map_cons]

theorem document_variant (name : String) (j : Json) :
    (variant name j).document = .object [(Quoted.encode name.toList, j.document)] := rfl

/-- The document of the value is read as `a` under every budget that covers its brackets. -/
structure ReadsAs {α : Type} (j : Json) (read : Nat → Document → Option α) (a : α) : Prop where
  prints : j.Prints
  reads : ∀ {budget : Nat}, j.depth ≤ budget → read budget j.document = some a

namespace ReadsAs

variable {α β : Type} {j : Json} {a : α} {b : β}

/-- **The text of a value is read as what its document is read as.** -/
theorem parse {read : Nat → Document → Option α} (h : j.ReadsAs read a)
    (hdepth : j.depth ≤ Document.bracketLimit) :
    (Document.parse j.compact).bind (read Document.bracketLimit) = some a := by
  rw [Document.parse_compact h.prints, Option.bind_some, h.reads hdepth]

theorem map {read : Nat → Document → Option α} {partOf? : Nat → Document → Option β} {f : β → α}
    (hj : j.ReadsAs partOf? b)
    (h : ∀ budget, read budget j.document = (partOf? budget j.document).map f) :
    j.ReadsAs read (f b) :=
  ⟨hj.prints, fun hdepth => by rw [h, hj.reads hdepth, Option.map_some]⟩

/-! ## Leaves -/

theorem str (s : String) : (Json.str s).ReadsAs (fun _ => Document.toText?) s :=
  ⟨trivial, fun _ => Document.textOf?_encode s⟩

theorem bool (b : Bool) : (Json.bool b).ReadsAs (fun _ => Document.toBool?) b :=
  ⟨trivial, fun _ => rfl⟩

theorem uint64 (n : UInt64) : (Json.ofNat n.toNat).ReadsAs (fun _ => Document.toUInt64?) n := by
  refine ⟨trivial, fun _ => ?_⟩
  have hnumber := Number.ofLiteral?_chars_natural n.toNat_lt
  rw [UInt64.ofNat_toNat] at hnumber
  simp [Json.ofNat, Json.document, Document.toUInt64?, Document.toNumber?, hnumber]

theorem uint32 (n : UInt32) : (Json.ofNat n.toNat).ReadsAs (fun _ => Document.toUInt32?) n := by
  refine ⟨trivial, fun _ => ?_⟩
  have hlt : n.toNat < UInt32.size := n.toNat_lt
  have hnumber := Number.ofLiteral?_chars_natural (n := n.toUInt64.toNat) n.toUInt64.toNat_lt
  rw [UInt64.ofNat_toNat, UInt32.toNat_toUInt64] at hnumber
  simp [Json.ofNat, Json.document, Document.toUInt32?, Document.toNumber?, hnumber, hlt]

theorem int64 (i : Int64) : (Json.int i.toInt).ReadsAs (fun _ => Document.toInt64?) i := by
  refine ⟨trivial, fun _ => ?_⟩
  rcases Number.ofLiteral?_int64 i with hnumber | ⟨n, hnumber, hn, hvalue⟩
  · simp [Json.document, Document.toInt64?, Document.toNumber?, hnumber]
  · simp [Json.document, Document.toInt64?, Document.toNumber?, hnumber, hn, hvalue]

theorem float {x : Binary64} (h : x.Survives) :
    (Json.ofFloat x).ReadsAs (fun _ => Document.toFloat?) x := by
  rw [ofFloat, if_pos h.1]
  refine ⟨h, fun _ => ?_⟩
  simp [Json.document, Document.toFloat?, Document.toNumber?, (Binary64.Survives.reads h).2]

/-! ## Arrays -/

theorem arr {read : Nat → Document → Option α} {js : List Json} (hprints : ∀ j ∈ js, j.Prints)
    (h : ∀ budget, (∀ j ∈ js, j.depth ≤ budget) →
      read (budget + 1) (Json.arr js).document = some a) :
    (Json.arr js).ReadsAs read a := by
  refine ⟨allPrint_iff.2 hprints, fun {budget} hdepth => ?_⟩
  cases budget with
  | zero => exact absurd hdepth (Nat.not_succ_le_zero _)
  | succ budget => exact h budget (itemsDepth_le_iff.1 (Nat.le_of_succ_le_succ hdepth))

/-- **A list is read item by item.** -/
theorem ofList {write : α → Json} {read : Nat → Document → Option α} {as : List α}
    (h : ∀ a ∈ as, (write a).ReadsAs read a) :
    (Json.ofList write as).ReadsAs (Document.itemsOf? read) as := by
  refine arr (fun j hj => ?_) fun budget hdepth => ?_
  · obtain ⟨a, ha, rfl⟩ := List.mem_map.1 hj
    exact (h a ha).prints
  · rw [Json.document, documents_eq, List.map_map, Document.itemsOf?, Document.listOf?,
      List.mapM_map, mapM_eq_some_map (f := id), List.map_id]
    exact fun a ha => (h a ha).reads (hdepth _ (List.mem_map_of_mem ha))

theorem texts (ss : List String) : (Json.ofList .str ss).ReadsAs Document.texts? ss := by
  rw [Document.texts?_eq]
  exact ofList fun s _ => str s

/-! ## Options -/

theorem optionOf?_of_ne_null {read : Document → Option α} {d : Document} (h : d ≠ .null) :
    d.optionOf? read = (read d).map some := by
  cases d with
  | null => exact absurd rfl h
  | _ => rfl

/-- **Null is read as none, and no value that is written as null is read as anything else.** -/
theorem ofOption {write : α → Json} {read : Nat → Document → Option α} (a? : Option α)
    (h : ∀ a ∈ a?, (write a).ReadsAs read a ∧ write a ≠ .null) :
    (Json.ofOption write a?).ReadsAs (fun budget => Document.optionOf? (read budget)) a? := by
  cases a? with
  | none => exact ⟨trivial, fun _ => rfl⟩
  | some a =>
    obtain ⟨ha, hnull⟩ := h a rfl
    refine ⟨ha.prints, fun hdepth => ?_⟩
    have hdocument : (write a).document ≠ .null := by
      cases hwrite : write a <;> simp_all [Json.document]
    rw [Json.ofOption, optionOf?_of_ne_null hdocument, ha.reads hdepth, Option.map_some]

/-! ## Objects -/

/-- An object is read if its fields are, with one bracket less. -/
theorem obj {read : Nat → Document → Option α} {fields : List (String × Json)}
    (hprints : ∀ f ∈ fields, f.2.Prints)
    (h : ∀ budget, (∀ f ∈ fields, f.2.depth ≤ budget) →
      read (budget + 1) (Json.obj fields).document = some a) :
    (Json.obj fields).ReadsAs read a := by
  refine ⟨fieldsPrint_iff.2 hprints, fun {budget} hdepth => ?_⟩
  cases budget with
  | zero => exact absurd hdepth (Nat.not_succ_le_zero _)
  | succ budget => exact h budget (fieldsDepth_le_iff.1 (Nat.le_of_succ_le_succ hdepth))

/-- **A variant is read by what stands under its name.** -/
theorem variant {name : String} {read : Nat → Document → Option α}
    {payloadOf? : Nat → Document → Option β} {f : β → α} (hj : j.ReadsAs payloadOf? b)
    (h : ∀ budget, read (budget + 1) (Json.variant name j).document =
      (payloadOf? budget j.document).map f) :
    (Json.variant name j).ReadsAs read (f b) := by
  refine obj (by simpa using hj.prints) fun budget hdepth => ?_
  have hpayload : j.depth ≤ budget := by simpa using hdepth
  exact (h budget).trans (by rw [hj.reads hpayload, Option.map_some])

theorem variantArr {name : String} {read : Nat → Document → Option α} {js : List Json}
    (hprints : ∀ j ∈ js, j.Prints)
    (h : ∀ budget, (∀ j ∈ js, j.depth ≤ budget) →
      read (budget + 2) (Json.variant name (.arr js)).document = some a) :
    (Json.variant name (.arr js)).ReadsAs read a := by
  have harr : (Json.arr js).ReadsAs
      (fun budget d => read (budget + 1) (.object [(Quoted.encode name.toList, d)])) a :=
    .arr hprints h
  exact harr.variant (f := id) fun _ => (congrFun Option.map_id _).symm

theorem variantObj {name : String} {read : Nat → Document → Option α}
    {fields : List (String × Json)} (hprints : ∀ f ∈ fields, f.2.Prints)
    (h : ∀ budget, (∀ f ∈ fields, f.2.depth ≤ budget) →
      read (budget + 2) (Json.variant name (.obj fields)).document = some a) :
    (Json.variant name (.obj fields)).ReadsAs read a := by
  have hobj : (Json.obj fields).ReadsAs
      (fun budget d => read (budget + 1) (.object [(Quoted.encode name.toList, d)])) a :=
    .obj hprints h
  exact hobj.variant (f := id) fun _ => (congrFun Option.map_id _).symm

end ReadsAs
end Json

namespace Document

theorem named?_fieldDocuments (fields : List (String × Json)) :
    named? (Json.fieldDocuments fields) = some (fields.map fun f => (f.1, f.2.document)) := by
  rw [named?, Json.fieldDocuments_eq, List.mapM_map]
  exact mapM_eq_some_map fun f _ => by simp

theorem filter_name {fields : List (String × Json)} (h : (fields.map Prod.fst).Nodup)
    (name : String) :
    fields.filter (fun f => f.1 = name) = (fields.find? fun f => f.1 = name).toList := by
  induction fields with
  | nil => rfl
  | cons f fields ih =>
    obtain ⟨hnew, hrest⟩ := List.nodup_cons.1 h
    by_cases hname : f.1 = name
    · subst hname
      have hnone : fields.filter (fun g => g.1 = f.1) = [] := by
        rw [List.filter_eq_nil_iff]
        intro g hg heq
        exact hnew (List.mem_map.2 ⟨g, hg, of_decide_eq_true heq⟩)
      simp [hnone]
    · simp [hname, ih hrest]

/-- **The fields of a written object are found by name.** -/
theorem record?_obj {names : List String} {fields : List (String × Json)}
    (h : (fields.map Prod.fst).Nodup) :
    record? names (Json.obj fields).document = some (names.map fun name =>
      (fields.find? fun f => f.1 = name).map fun f => f.2.document) := by
  have hfield : ∀ name, (fields.map fun f => (f.1, f.2.document)).filter (fun f => f.1 = name) =
      (fields.find? fun f => f.1 = name).toList.map fun f => (f.1, f.2.document) := by
    intro name
    rw [List.filter_map, ← filter_name h]
    rfl
  rw [Json.document, record?, named?_fieldDocuments, Option.bind_eq_bind, Option.bind_some]
  refine Eq.trans ?_ List.mapM_pure
  congr 1
  funext name
  rw [hfield]
  cases fields.find? fun f => f.1 = name <;> rfl

theorem choice?_name {α : Type} {all : List α} {name : α → String} {a : α}
    (h : all.find? (fun b => name b = name a) = some a) (budget : Nat) :
    choice? all name budget (Json.str (name a)).document = some a := by
  simp [choice?, unitVariant?, variant?, Json.document, h]

end Document
end TraversalPlan

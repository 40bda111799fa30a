import Mathlib.Data.List.TakeWhile
import TraversalPlan.Result.Decode

/-!
# What decoding returns and logs

Decoding looks at the elements of a batch and at the tags of its entries, one after the other, and
stops at the first tag without a name. Until then it logs every element without content. So either
every item of the batch has its value and every such element is logged, or there are no values and
only such elements before that tag are logged (**`QueryResult.outcome_of_decode`**).

* `QueryResult.items`, `QueryResult.Item.json`: what has one value of its own, and that value.
* `QueryResult.decodedElements`: the elements that are decoded, wherever they are nested.
* `Look`: a single look at an element or a tag.
* `afterLooks`: a value that is returned after some looks; kept by sequences (`bind_afterLooks`) and
  by traversals (`traverse_eq_afterLooks`).
* `GraphElement.decode_eq` and its like: what each part of a batch looks at, and its value.
-/

namespace TraversalPlan

/-! ## Values -/

/-- The ids of an element. -/
def GraphElement.json : GraphElement → Json
  | vertex id => .arr [.int id.toInt]
  | edge source target => .arr [.int source.toInt, .int target.toInt]
  | unset => .arr []

def TagValue.json : TagValue → Json
  | element e => e.json
  | value v => v.decode
  | properties m => .sortedObject (m.entries.map fun (k, v) => (k, v.decode))

def PairElement.json : PairElement → Json
  | element e => e.json
  | value v => v.decode
  | elements es => .arr (es.map GraphElement.json)
  | values vs => .arr (vs.map Value.decode)

def PairEntry.json (p : PairEntry) : Json := .obj [("key", p.first.json), ("value", p.second.json)]

/-- The tag of the entry has a name. -/
def TagEntry.isNamed (tags : TagTable) (e : TagEntry) : Bool := (tags.get? e.tag).isSome

/-- The field of an entry whose tag has a name. -/
def TagEntry.field (tags : TagTable) (e : TagEntry) : String × Json :=
  ((tags.get? e.tag).getD "", e.value.json)

namespace QueryResult

/-- What has one value of its own. -/
inductive Item where
  | path (es : List GraphElement)
  | element (e : GraphElement)
  | record (entries : List TagEntry)
  | pair (p : PairEntry)
  | value (v : Value)

/-- The items of a batch, in order. -/
def items : QueryResult → List Item
  | paths ps => ps.map .path
  | elements es => es.map .element
  | tagEntries records => records.map .record
  | pairs ps => ps.map .pair
  | value v => [.value v]
  | values vs => vs.map .value

/-- The value of an item. A record of one entry is the bare value of that. -/
def Item.json (tags : TagTable) : Item → Json
  | path es => .arr (es.map GraphElement.json)
  | element e => e.json
  | record [only] => only.value.json
  | record entries => .sortedObject (entries.map (TagEntry.field tags))
  | pair p => p.json
  | value v => v.decode

/-- The entries of a batch, record by record. -/
def entries : QueryResult → List TagEntry
  | tagEntries records => records.flatten
  | _ => []

/-- The first entry whose tag has no name. -/
def unnamed? (tags : TagTable) (r : QueryResult) : Option TagEntry :=
  r.entries.find? fun e => !e.isNamed tags

end QueryResult

/-! ## Elements -/

def TagValue.graphElements : TagValue → List GraphElement
  | element e => [e]
  | value _ => []
  | properties _ => []

def PairElement.graphElements : PairElement → List GraphElement
  | element e => [e]
  | value _ => []
  | elements es => es
  | values _ => []

namespace QueryResult

def Item.graphElements : Item → List GraphElement
  | path es => es
  | element e => [e]
  | record entries => entries.flatMap fun e => e.value.graphElements
  | pair p => p.first.graphElements ++ p.second.graphElements
  | value _ => []

/-- The elements of a batch, wherever they are nested. -/
def graphElements (r : QueryResult) : List GraphElement := r.items.flatMap Item.graphElements

/-- The elements that are decoded: all of them, or those before the first entry whose tag has no
name. -/
def decodedElements (tags : TagTable) (r : QueryResult) : List GraphElement :=
  match r.unnamed? tags with
  | none => r.graphElements
  | some _ => (r.entries.takeWhile (TagEntry.isNamed tags)).flatMap fun e => e.value.graphElements

end QueryResult

/-! ## Looks -/

/-- A look at a tag or at an element. -/
inductive Look where
  | tag (id : UInt32)
  | element (e : GraphElement)

namespace Look

/-- The name of a tag has to be known. -/
def fault? (tags : TagTable) : Look → Option DecodeError
  | tag id => if (tags.get? id).isNone then some (.unknownTag id) else none
  | element _ => none

/-- An element without content is logged. -/
def events : Look → List Event
  | tag _ => []
  | element e => if e = .unset then [.unsetElement] else []

end Look

section Looks

variable {α β : Type} (tags : TagTable)

/-- A value that is returned after some looks, unless one of them fails. -/
def afterLooks : List Look → α → Decoding α
  | [], a => pure a
  | look :: looks, a =>
    match look.fault? tags with
    | some e => .fail e
    | none => do
      Traced.emit look.events
      afterLooks looks a

variable {tags}

/-- What goes on with looks is itself a value after looks. -/
theorem bind_afterLooks {a : α} {b : β} {f : α → Decoding β} (looks : List Look)
    {looks' : List Look} (h : f a = afterLooks tags looks' b) :
    afterLooks tags looks a >>= f = afterLooks tags (looks ++ looks') b := by
  induction looks with
  | nil => rw [afterLooks, pure_bind, h, List.nil_append]
  | cons look looks ih =>
    rw [List.cons_append, afterLooks, afterLooks]
    cases look.fault? tags with
    | some e => rfl
    | none =>
      dsimp only
      rw [bind_assoc]
      simp only [ih]

theorem bind_afterLooks_of_pure {a : α} {b : β} {f : α → Decoding β} (looks : List Look)
    (h : f a = pure b) : afterLooks tags looks a >>= f = afterLooks tags looks b := by
  have hbind : afterLooks tags looks a >>= f = afterLooks tags (looks ++ []) b :=
    bind_afterLooks looks h
  rwa [List.append_nil] at hbind

theorem traverse_eq_afterLooks {f : α → Decoding β} {looks : α → List Look} {g : α → β}
    (h : ∀ a, f a = afterLooks tags (looks a) (g a)) (as : List α) :
    Traced.traverse f as = afterLooks tags (as.flatMap looks) (as.map g) := by
  induction as with
  | nil => rfl
  | cons a as ih =>
    rw [Traced.traverse_cons, h, List.flatMap_cons, List.map_cons]
    refine bind_afterLooks _ ?_
    rw [ih]
    exact bind_afterLooks_of_pure _ rfl

theorem result_afterLooks (looks : List Look) (a : α) :
    (afterLooks tags looks a).result = match looks.findSome? (Look.fault? tags) with
      | some e => .error e
      | none => .ok a := by
  induction looks with
  | nil => rfl
  | cons look looks ih =>
    rw [afterLooks, List.findSome?_cons]
    cases look.fault? tags with
    | some e => rfl
    | none => exact (Traced.result_bind _ _).trans ih

theorem log_afterLooks (looks : List Look) (a : α) :
    (afterLooks tags looks a).log =
      (looks.takeWhile fun look => (look.fault? tags).isNone).flatMap Look.events := by
  induction looks with
  | nil => rfl
  | cons look looks ih =>
    rw [afterLooks, List.takeWhile_cons]
    cases look.fault? tags with
    | some e => rfl
    | none => simpa [Traced.log_bind] using ih

end Looks

/-! ## Parts of a batch -/

/-- The looks at an entry: at its tag before anything else. -/
def TagEntry.looks (e : TagEntry) : List Look := .tag e.tag :: e.value.graphElements.map .element

def QueryResult.Item.looks : QueryResult.Item → List Look
  | record entries => entries.flatMap TagEntry.looks
  | item => item.graphElements.map .element

section Parts

variable {tags : TagTable}

theorem GraphElement.decode_eq (e : GraphElement) :
    e.decode = afterLooks tags [.element e] e.json := by
  cases e <;> rfl

theorem GraphElement.decodeAll_eq (es : List GraphElement) :
    GraphElement.decodeAll es =
      afterLooks tags (es.map .element) (.arr (es.map GraphElement.json)) := by
  have hlooks : es.map Look.element = es.flatMap fun e => [.element e] := List.map_eq_flatMap
  rw [decodeAll, traverse_eq_afterLooks GraphElement.decode_eq, hlooks]
  exact bind_afterLooks_of_pure _ rfl

theorem TagValue.decode_eq (v : TagValue) :
    v.decode = afterLooks tags (v.graphElements.map .element) v.json := by
  cases v with
  | element e => exact e.decode_eq
  | value v => rfl
  | properties m => rfl

theorem PairElement.decode_eq (p : PairElement) :
    p.decode = afterLooks tags (p.graphElements.map .element) p.json := by
  cases p with
  | element e => exact e.decode_eq
  | value v => rfl
  | elements es => exact GraphElement.decodeAll_eq es
  | values vs => rfl

theorem PairEntry.decode_eq (p : PairEntry) :
    p.decode = afterLooks tags ((p.first.graphElements ++ p.second.graphElements).map .element)
      p.json := by
  rw [decode, PairElement.decode_eq, List.map_append]
  refine bind_afterLooks _ ?_
  rw [PairElement.decode_eq]
  exact bind_afterLooks_of_pure _ rfl

theorem TagEntry.decode_eq (e : TagEntry) :
    e.decode tags = afterLooks tags e.looks (e.field tags) := by
  rw [decode, looks, afterLooks, Look.fault?, field]
  cases tags.get? e.tag with
  | none => rfl
  | some name =>
    rw [TagValue.decode_eq]
    exact bind_afterLooks_of_pure _ rfl

theorem TagEntry.decodeRecord_eq (entries : List TagEntry) :
    TagEntry.decodeRecord tags entries =
      afterLooks tags (entries.flatMap TagEntry.looks)
        ((QueryResult.Item.record entries).json tags) := by
  rw [decodeRecord, traverse_eq_afterLooks TagEntry.decode_eq]
  refine bind_afterLooks_of_pure _ ?_
  match entries with
  | [] => rfl
  | [only] => rfl
  | _ :: _ :: _ => rfl

end Parts

/-! ## Batches -/

namespace QueryResult

variable {tags : TagTable}

theorem traverse_eq_afterLooks_of_items {α : Type} (item : α → Item) {f : α → Decoding Json}
    (h : ∀ a, f a = afterLooks tags (item a).looks ((item a).json tags)) (as : List α) :
    Traced.traverse f as =
      afterLooks tags ((as.map item).flatMap Item.looks) ((as.map item).map (Item.json tags)) := by
  rw [List.flatMap_map, List.map_map]
  exact traverse_eq_afterLooks h as

theorem decode_eq_afterLooks (r : QueryResult) :
    r.decode tags =
      afterLooks tags (r.items.flatMap Item.looks) (r.items.map (Item.json tags)) := by
  cases r with
  | paths ps => exact traverse_eq_afterLooks_of_items .path GraphElement.decodeAll_eq ps
  | elements es => exact traverse_eq_afterLooks_of_items .element GraphElement.decode_eq es
  | tagEntries records =>
    exact traverse_eq_afterLooks_of_items .record TagEntry.decodeRecord_eq records
  | pairs ps => exact traverse_eq_afterLooks_of_items .pair PairEntry.decode_eq ps
  | value v => rfl
  | values vs =>
    have hlooks : (vs.map Item.value).flatMap Item.looks = [] :=
      List.flatMap_eq_nil_iff.2 (List.forall_mem_map.2 fun _ _ => rfl)
    rw [items, hlooks, List.map_map]
    rfl

end QueryResult

/-! ## Looks at entries -/

section Entries

theorem events_of_elements (es : List GraphElement) :
    (es.map Look.element).flatMap Look.events =
      List.replicate (es.count .unset) .unsetElement := by
  induction es with
  | nil => rfl
  | cons e es ih =>
    rw [List.map_cons, List.flatMap_cons, ih, List.count_cons]
    by_cases h : e = .unset
    · simp [Look.events, h, List.replicate_succ]
    · simp [Look.events, h]

theorem events_of_entries (entries : List TagEntry) :
    (entries.flatMap TagEntry.looks).flatMap Look.events =
      List.replicate ((entries.flatMap fun e => e.value.graphElements).count .unset)
        .unsetElement := by
  rw [← events_of_elements]
  simp only [List.flatMap_assoc, List.map_flatMap]
  rfl

variable (tags : TagTable)

/-- The first fault is that of the first tag without a name. -/
theorem findSome?_fault?_of_entries (entries : List TagEntry) :
    (entries.flatMap TagEntry.looks).findSome? (Look.fault? tags) =
      (entries.find? fun e => !e.isNamed tags).map fun e => .unknownTag e.tag := by
  induction entries with
  | nil => rfl
  | cons e entries ih =>
    have helements : (e.value.graphElements.map Look.element).findSome? (Look.fault? tags) = none :=
      List.findSome?_eq_none_iff.2 (List.forall_mem_map.2 fun _ _ => rfl)
    rw [List.flatMap_cons, TagEntry.looks, List.cons_append, List.findSome?_cons, List.find?_cons,
      Look.fault?, List.findSome?_append, helements, Option.none_or, ih, TagEntry.isNamed]
    cases tags.get? e.tag <;> rfl

/-- The looks before the first fault are those at the entries before it. -/
theorem takeWhile_looks_of_entries (entries : List TagEntry) :
    ((entries.flatMap TagEntry.looks).takeWhile fun look => (look.fault? tags).isNone) =
      (entries.takeWhile (TagEntry.isNamed tags)).flatMap TagEntry.looks := by
  induction entries with
  | nil => rfl
  | cons e entries ih =>
    have helements : ∀ look ∈ e.value.graphElements.map Look.element,
        (look.fault? tags).isNone = true := List.forall_mem_map.2 fun _ _ => rfl
    rw [List.flatMap_cons, TagEntry.looks, List.cons_append, List.takeWhile_cons,
      List.takeWhile_cons, List.takeWhile_append_of_pos helements, ih, Look.fault?,
      TagEntry.isNamed]
    cases tags.get? e.tag <;> rfl

end Entries

namespace QueryResult

variable {tags : TagTable}

theorem decodedElements_tagEntries (records : List (List TagEntry)) :
    (tagEntries records).decodedElements tags =
      (records.flatten.takeWhile (TagEntry.isNamed tags)).flatMap
        fun e => e.value.graphElements := by
  unfold decodedElements
  cases h : (tagEntries records).unnamed? tags with
  | some e => rfl
  | none =>
    have hnamed : records.flatten.takeWhile (TagEntry.isNamed tags) = records.flatten :=
      List.takeWhile_eq_self_iff.2 fun e he => by simpa using List.find?_eq_none.1 h e he
    rw [hnamed, graphElements, items, List.flatMap_map, ← List.flatMap_id, List.flatMap_assoc]
    rfl

theorem looks_tagEntries (records : List (List TagEntry)) :
    (tagEntries records).items.flatMap Item.looks = records.flatten.flatMap TagEntry.looks := by
  rw [items, List.flatMap_map, ← List.flatMap_id, List.flatMap_assoc]
  rfl

/-- Outside of records there are only elements to look at. -/
theorem looks_of_ne {r : QueryResult} (h : ∀ records, r ≠ tagEntries records) :
    r.items.flatMap Item.looks = r.graphElements.map .element ∧ r.unnamed? tags = none := by
  cases r with
  | tagEntries records => exact absurd rfl (h records)
  | _ => simp [items, graphElements, List.flatMap_map, List.map_flatMap, Item.looks, unnamed?,
      entries]

theorem result_decode (r : QueryResult) :
    (r.decode tags).result = match r.unnamed? tags with
      | some e => .error (.unknownTag e.tag)
      | none => .ok (r.items.map (Item.json tags)) := by
  have hfault : (r.items.flatMap Item.looks).findSome? (Look.fault? tags) =
      (r.unnamed? tags).map fun e => .unknownTag e.tag := by
    by_cases h : ∀ records, r ≠ tagEntries records
    case pos =>
      obtain ⟨hlooks, hnamed⟩ := looks_of_ne h
      rw [hlooks, hnamed]
      exact List.findSome?_eq_none_iff.2 (List.forall_mem_map.2 fun _ _ => rfl)
    case neg =>
      obtain ⟨records, rfl⟩ := not_forall_not.1 h
      rw [looks_tagEntries, findSome?_fault?_of_entries]
      rfl
  rw [decode_eq_afterLooks, result_afterLooks, hfault]
  cases r.unnamed? tags <;> rfl

theorem log_decode (r : QueryResult) : (r.decode tags).log =
    List.replicate ((r.decodedElements tags).count .unset) .unsetElement := by
  rw [decode_eq_afterLooks, log_afterLooks]
  by_cases h : ∀ records, r ≠ tagEntries records
  case pos =>
    obtain ⟨hlooks, hnamed⟩ := @looks_of_ne tags r h
    have hall : ∀ look ∈ r.graphElements.map Look.element, (look.fault? tags).isNone = true :=
      List.forall_mem_map.2 fun _ _ => rfl
    rw [hlooks, List.takeWhile_eq_self_iff.2 hall, events_of_elements, decodedElements, hnamed]
  case neg =>
    obtain ⟨records, rfl⟩ := not_forall_not.1 h
    rw [looks_tagEntries, takeWhile_looks_of_entries, events_of_entries, decodedElements_tagEntries]

/-- **Decoding returns all values or none.** It fails just when some entry of a record has a tag
without a name, and the first such tag is reported. Otherwise each item has its value, in order.
Every element without content that is decoded is logged once. -/
theorem outcome_of_decode (tags : TagTable) (r : QueryResult) :
    ((∃ e, (r.decode tags).result = .error e) ↔ ∃ records, r = .tagEntries records ∧
      ∃ entry ∈ records.flatten, tags.get? entry.tag = none) ∧
    (r.decode tags).result.mapError DecodeError.report = (match r.unnamed? tags with
      | some entry => .error (.decode ("unknown tag id " ++ entry.tag.toNat.repr))
      | none => .ok (r.items.map (Item.json tags))) ∧
    (r.decode tags).log =
      List.replicate ((r.decodedElements tags).count .unset) .unsetElement := by
  refine ⟨?_, ?_, r.log_decode⟩
  · have hfails : (∃ e, (r.decode tags).result = .error e) ↔ (r.unnamed? tags).isSome := by
      rw [result_decode]
      cases r.unnamed? tags <;> simp
    rw [hfails]
    cases r with
    | tagEntries records =>
      rw [unnamed?, entries, List.find?_isSome]
      simp [TagEntry.isNamed]
    | _ => simp [unnamed?, entries]
  · rw [result_decode]
    cases r.unnamed? tags <;> rfl

/-- An element behind a tag without a name is not decoded. -/
example : (tagEntries [[⟨0, .element .unset⟩, ⟨7, .element .unset⟩], [⟨0, .value .null⟩]]).decode
    (.single 0 "a") = ⟨[.unsetElement], .error (.unknownTag 7)⟩ := rfl

end QueryResult
end TraversalPlan

import Mathlib.Data.List.Induction
import Mathlib.Data.List.Nodup
import Mathlib.Data.Option.Basic
import Mathlib.Data.String.Basic
import TraversalPlan.Proofs.Result.Decoding

/-!
# Fields of records

A record of several entries is an object with one field for each name among its tags. Where two
entries have tags of one name, the later one takes the field over and the value of the earlier one is
gone. So no value is lost just in the records whose tags have different names
(**`QueryResult.fields_of_decode`**).

* `Json.sortedFields`: the fields of a sorted object, one put after the other.
* `Json.Increasing`: fields sorted by name, each name once; kept by each field that is set.
* `Json.lastField?`: the field given last to a name; `mem_sortedFields`: these are the fields.
* `Json.perm_sortedFields_iff`: all fields are there just if the names differ.
-/

namespace TraversalPlan

/-! ## Sorted fields -/

namespace Json

/-- The fields of the sorted object. -/
def sortedFields (fields : List (String × Json)) : List (String × Json) :=
  fields.foldl (fun sorted f => setSorted f.1 f.2 sorted) []

theorem sortedObject_eq (fields : List (String × Json)) :
    sortedObject fields = .obj (sortedFields fields) := rfl

theorem sortedFields_concat (fields : List (String × Json)) (f : String × Json) :
    sortedFields (fields ++ [f]) = setSorted f.1 f.2 (sortedFields fields) :=
  List.foldl_concat ..

/-- The names increase, so that none occurs twice. -/
def Increasing (fields : List (String × Json)) : Prop := fields.Pairwise fun f g => f.1 < g.1

theorem Increasing.nodup_names {fields : List (String × Json)} (h : Increasing fields) :
    (fields.map Prod.fst).Nodup :=
  List.pairwise_map.2 (h.imp ne_of_lt)

variable {key : String} {value : Json} {f g : String × Json} {fields : List (String × Json)}

/-- **Setting a field** replaces the one of its name and leaves the others. -/
theorem mem_setSorted (h : Increasing fields) :
    g ∈ setSorted key value fields ↔ g = (key, value) ∨ g ∈ fields ∧ g.1 ≠ key := by
  induction fields with
  | nil => simp [setSorted]
  | cons f fields ih =>
    obtain ⟨k, v⟩ := f
    obtain ⟨hfirst, hrest⟩ := List.pairwise_cons.1 h
    rw [setSorted]
    split_ifs with hlt heq
    · -- the name stands before all others
      have hne : ∀ g ∈ (k, v) :: fields, g.1 ≠ key := by
        intro g hg
        rcases List.mem_cons.1 hg with rfl | hg
        · exact hlt.ne'
        · exact (hlt.trans (hfirst g hg)).ne'
      rw [List.mem_cons]
      exact or_congr_right ⟨fun hg => ⟨hg, hne g hg⟩, And.left⟩
    · subst heq
      have hne : ∀ g ∈ fields, g.1 ≠ key := fun g hg => (hfirst g hg).ne'
      rw [List.mem_cons, List.mem_cons]
      refine or_congr_right ⟨fun hg => ⟨.inr hg, hne g hg⟩, ?_⟩
      rintro ⟨rfl | hg, hname⟩
      · exact absurd rfl hname
      · exact hg
    · rw [List.mem_cons, List.mem_cons, ih hrest]
      constructor
      · rintro (rfl | rfl | ⟨hg, hname⟩)
        · exact .inr ⟨.inl rfl, Ne.symm heq⟩
        · exact .inl rfl
        · exact .inr ⟨.inr hg, hname⟩
      · rintro (rfl | ⟨rfl | hg, hname⟩)
        · exact .inr (.inl rfl)
        · exact .inl rfl
        · exact .inr (.inr ⟨hg, hname⟩)

theorem Increasing.setSorted (h : Increasing fields) : Increasing (setSorted key value fields) := by
  induction fields with
  | nil => exact List.pairwise_singleton _ _
  | cons f fields ih =>
    obtain ⟨k, v⟩ := f
    obtain ⟨hfirst, hrest⟩ := List.pairwise_cons.1 h
    rw [Json.setSorted]
    split_ifs with hlt heq
    · refine List.pairwise_cons.2 ⟨fun g hg => ?_, h⟩
      rcases List.mem_cons.1 hg with rfl | hg
      · exact hlt
      · exact hlt.trans (hfirst g hg)
    · subst heq
      exact List.pairwise_cons.2 ⟨hfirst, hrest⟩
    · refine List.pairwise_cons.2 ⟨fun g hg => ?_, ih hrest⟩
      rcases (mem_setSorted hrest).1 hg with rfl | ⟨hg, -⟩
      · exact lt_of_le_of_ne (not_lt.1 hlt) (Ne.symm heq)
      · exact hfirst g hg

theorem increasing_sortedFields (fields : List (String × Json)) :
    Increasing (sortedFields fields) := by
  induction fields using List.reverseRecOn with
  | nil => exact List.Pairwise.nil
  | append_singleton fields f ih =>
    rw [sortedFields_concat]
    exact ih.setSorted

/-- The field that is given last to a name. -/
def lastField? (fields : List (String × Json)) (name : String) : Option (String × Json) :=
  fields.reverse.find? fun f => f.1 = name

theorem lastField?_concat (fields : List (String × Json)) (f : String × Json) (name : String) :
    lastField? (fields ++ [f]) name = if f.1 = name then some f else lastField? fields name := by
  rw [lastField?, List.reverse_append, List.reverse_singleton, List.singleton_append,
    List.find?_cons]
  by_cases h : f.1 = name <;> simp [h, lastField?]

/-- **A name has the field that is given to it last.** -/
theorem mem_sortedFields : f ∈ sortedFields fields ↔ lastField? fields f.1 = some f := by
  induction fields using List.reverseRecOn with
  | nil => simp [sortedFields, lastField?]
  | append_singleton fields g ih =>
    rw [sortedFields_concat, mem_setSorted (increasing_sortedFields fields), lastField?_concat, ih]
    by_cases h : g.1 = f.1
    · rw [if_pos h, Option.some.injEq, eq_comm]
      exact or_iff_left fun hf => hf.2 h.symm
    · have hfg : f ≠ g := fun hfg => h (congrArg Prod.fst hfg.symm)
      simp [h, hfg, Ne.symm h]

theorem lastField?_of_nodup (h : (fields.map Prod.fst).Nodup) :
    lastField? fields f.1 = some f ↔ f ∈ fields := by
  constructor
  · intro hlast
    exact List.mem_reverse.1 (List.mem_of_find?_eq_some hlast)
  · intro hmem
    cases hlast : lastField? fields f.1 with
    | none =>
      have hnone := List.find?_eq_none.1 hlast f (List.mem_reverse.2 hmem)
      simp at hnone
    | some g =>
      have hname : g.1 = f.1 := by simpa using List.find?_some hlast
      have hg : g ∈ fields := List.mem_reverse.1 (List.mem_of_find?_eq_some hlast)
      rw [List.inj_on_of_nodup_map h hg hmem hname]

/-- **All fields are there** just if their names differ. -/
theorem perm_sortedFields_iff :
    (sortedFields fields).Perm fields ↔ (fields.map Prod.fst).Nodup := by
  have hnodup := (increasing_sortedFields fields).nodup_names
  constructor
  · intro hperm
    exact (hperm.map Prod.fst).nodup_iff.1 hnodup
  · intro h
    refine (List.perm_ext_iff_of_nodup (hnodup.of_map _) (h.of_map _)).2 fun f => ?_
    rw [mem_sortedFields, lastField?_of_nodup h]

end Json

/-! ## Records -/

namespace QueryResult

variable {tags : TagTable} {records : List (List TagEntry)} {values : List Json}

theorem Item.json_of_two_le {entries : List TagEntry} (h : 2 ≤ entries.length) :
    (Item.record entries).json tags =
      .obj (Json.sortedFields (entries.map (TagEntry.field tags))) := by
  match entries with
  | _ :: _ :: _ => exact Json.sortedObject_eq _

theorem isNamed_of_decode (h : ((tagEntries records).decode tags).result = .ok values) :
    values = records.map (fun entries => (Item.record entries).json tags) ∧
      ∀ entries ∈ records, ∀ e ∈ entries, (tags.get? e.tag).isSome := by
  rw [result_decode] at h
  cases hunnamed : (tagEntries records).unnamed? tags with
  | some e =>
    rw [hunnamed] at h
    cases h
  | none =>
    rw [hunnamed] at h
    refine ⟨?_, fun entries hentries e he => ?_⟩
    · rw [← Except.ok.inj h, items, List.map_map]
      rfl
    · have hnamed := List.find?_eq_none.1 hunnamed e (List.mem_flatten.2 ⟨entries, hentries, he⟩)
      simpa [TagEntry.isNamed, Option.isSome_iff_ne_none] using hnamed

/-- Names differ as fields just if they differ in the table. -/
theorem nodup_names_iff {entries : List TagEntry}
    (h : ∀ e ∈ entries, (tags.get? e.tag).isSome) :
    ((entries.map (TagEntry.field tags)).map Prod.fst).Nodup ↔
      (entries.map fun e => tags.get? e.tag).Nodup := by
  have hnames : (entries.map fun e => tags.get? e.tag) =
      ((entries.map (TagEntry.field tags)).map Prod.fst).map some := by
    rw [List.map_map, List.map_map]
    refine List.map_congr_left fun e he => ?_
    obtain ⟨name, hname⟩ := Option.isSome_iff_exists.1 (h e he)
    simp [TagEntry.field, hname]
  rw [hnames, List.nodup_map_iff (Option.some_injective _)]

/-- **A record loses no value** just if its tags have different names. In any case each of the names
has one field, with the value of the last entry of that name. -/
theorem fields_of_decode (h : ((tagEntries records).decode tags).result = .ok values) :
    List.Forall₂ (fun entries json => 2 ≤ entries.length → ∃ fields, json = .obj fields ∧
      (fields.Perm (entries.map (TagEntry.field tags)) ↔
        (entries.map fun e => tags.get? e.tag).Nodup) ∧
      (fields.map Prod.fst).Nodup ∧
      ∀ f, f ∈ fields ↔ Json.lastField? (entries.map (TagEntry.field tags)) f.1 = some f)
      records values := by
  obtain ⟨rfl, hnamed⟩ := isNamed_of_decode h
  rw [List.forall₂_map_right_iff, List.forall₂_same]
  intro entries hentries hlen
  refine ⟨_, Item.json_of_two_le hlen, ?_, (Json.increasing_sortedFields _).nodup_names,
    fun f => Json.mem_sortedFields⟩
  rw [Json.perm_sortedFields_iff, nodup_names_iff (hnamed entries hentries)]

/-- The tags of people. -/
def peopleTags : TagTable := .ofList [(0, "name"), (1, "age")]

/-- The name and the age of a person. -/
def person : List TagEntry := [⟨0, .value (.string "marko")⟩, ⟨1, .value (.int 29)⟩]

theorem fields_of_decode_person :
    ((tagEntries [person]).decode peopleTags).result =
        .ok [.obj [("age", .int 29), ("name", .str "marko")]] ∧
      [("age", .int 29), ("name", .str "marko")].Perm (person.map (TagEntry.field peopleTags)) := by
  have hdecode : ((tagEntries [person]).decode peopleTags).result =
      .ok [.obj [("age", .int 29), ("name", .str "marko")]] := by rfl
  refine ⟨hdecode, ?_⟩
  obtain ⟨fields, hfields, hperm, -⟩ :=
    (List.forall₂_cons.1 (fields_of_decode hdecode)).1 (by decide)
  obtain rfl := Json.obj.inj hfields
  exact hperm.2 (by decide)

/-- Two tags of one name. -/
def twinTags : TagTable := .ofList [(0, "name"), (1, "name")]

/-- Two values of one tag. -/
def twoNames : List TagEntry := [⟨0, .value (.string "marko")⟩, ⟨0, .value (.string "josh")⟩]

theorem later_value_remains :
    (((tagEntries [twoNames]).decode peopleTags).result = .ok [.obj [("name", .str "josh")]] ∧
      ¬ [("name", Json.str "josh")].Perm (twoNames.map (TagEntry.field peopleTags))) ∧
    (((tagEntries [person]).decode twinTags).result = .ok [.obj [("name", .int 29)]] ∧
      ¬ [("name", Json.int 29)].Perm (person.map (TagEntry.field twinTags))) := by
  refine ⟨⟨rfl, fun h => ?_⟩, ⟨rfl, fun h => ?_⟩⟩ <;> exact absurd h.length_eq (by decide)

end QueryResult
end TraversalPlan

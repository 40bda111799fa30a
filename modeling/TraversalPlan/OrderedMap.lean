/-!
# Maps in insertion order

A list of entries with distinct keys, in the order in which the keys were first inserted.

* `OrderedMap.insert`: a new key goes to the end, a known one keeps its place and gets the new value.
* `OrderedMap.get?`: the value of a key.
* `keys_insert`: inserting changes the keys only by a new key at the end.
* `get?_insert`: a key has the value inserted last.
* `mem_of_mem_ofList`, `entries_ofList`: the entries of a map that is made of a list.
-/

namespace TraversalPlan

/-- A finite map that remembers the order of first insertion. -/
@[ext]
structure OrderedMap (κ ν : Type) where
  entries : List (κ × ν)
  /-- No key occurs twice. -/
  distinct : (entries.map Prod.fst).Nodup

namespace OrderedMap

variable {κ ν : Type}

def empty : OrderedMap κ ν := ⟨[], by simp⟩

instance : Inhabited (OrderedMap κ ν) := ⟨empty⟩

def size (m : OrderedMap κ ν) : Nat := m.entries.length

def isEmpty (m : OrderedMap κ ν) : Bool := m.entries.isEmpty

def keys (m : OrderedMap κ ν) : List κ := m.entries.map Prod.fst

/-- A map of one entry. -/
def single (k : κ) (v : ν) : OrderedMap κ ν := ⟨[(k, v)], by simp⟩

variable [DecidableEq κ]

/-- Sets the value of a key in a list of entries. -/
def put (k : κ) (v : ν) : List (κ × ν) → List (κ × ν)
  | [] => [(k, v)]
  | e :: es => if e.1 = k then (k, v) :: es else e :: put k v es

/-- **The keys keep their order, and a new one goes to the end.** -/
theorem keys_put (k : κ) (v : ν) (es : List (κ × ν)) :
    (put k v es).map Prod.fst =
      if k ∈ es.map Prod.fst then es.map Prod.fst else es.map Prod.fst ++ [k] := by
  induction es with
  | nil => simp [put]
  | cons e es ih =>
    by_cases h : e.1 = k
    · simp [put, h]
    · have h' : ¬ k = e.1 := fun hk => h hk.symm
      simp only [put, h, if_false, List.map_cons, ih, List.mem_cons, h', false_or]
      split <;> simp

theorem nodup_put (k : κ) (v : ν) {es : List (κ × ν)} (h : (es.map Prod.fst).Nodup) :
    ((put k v es).map Prod.fst).Nodup := by
  rw [keys_put]
  split
  · exact h
  · rename_i hk
    rw [List.nodup_append]
    refine ⟨h, by simp, fun a ha b hb => ?_⟩
    rintro rfl
    rw [List.mem_singleton] at hb
    exact hk (hb ▸ ha)

/-- Sets the value of a key. -/
def insert (m : OrderedMap κ ν) (k : κ) (v : ν) : OrderedMap κ ν :=
  ⟨put k v m.entries, nodup_put k v m.distinct⟩

/-- Inserts entries one after the other. -/
def ofList (es : List (κ × ν)) : OrderedMap κ ν := es.foldl (fun m e => m.insert e.1 e.2) empty

/-- The value of a key. -/
def get? (m : OrderedMap κ ν) (k : κ) : Option ν := (m.entries.find? fun e => e.1 = k).map Prod.snd

/-! ## Inserting and looking up -/

theorem keys_insert (m : OrderedMap κ ν) (k : κ) (v : ν) :
    (m.insert k v).keys = if k ∈ m.keys then m.keys else m.keys ++ [k] := keys_put k v m.entries

@[simp]
theorem get?_empty (k : κ) : (empty : OrderedMap κ ν).get? k = none := rfl

theorem find?_put (k : κ) (v : ν) (k' : κ) (es : List (κ × ν)) :
    (put k v es).find? (fun e => e.1 = k') =
      if k = k' then some (k, v) else es.find? fun e => e.1 = k' := by
  induction es with
  | nil => by_cases hk : k = k' <;> simp [put, hk]
  | cons e es ih =>
    by_cases h : e.1 = k
    · by_cases hk : k = k' <;> simp [put, h, hk]
    · by_cases hk : k = k'
      · subst hk
        simp [put, h, ih]
      · simp [put, h, hk, ih, List.find?_cons]

/-- **A key has the value inserted last.** -/
theorem get?_insert (m : OrderedMap κ ν) (k : κ) (v : ν) (k' : κ) :
    (m.insert k v).get? k' = if k = k' then some v else m.get? k' := by
  unfold insert get?
  rw [find?_put]
  split <;> rfl

/-! ## Entries -/

theorem mem_of_mem_put {k : κ} {v : ν} {x : κ × ν} {es : List (κ × ν)} (h : x ∈ put k v es) :
    x = (k, v) ∨ x ∈ es := by
  induction es with
  | nil => exact .inl (List.mem_singleton.1 h)
  | cons e es ih =>
    rw [put] at h
    split at h
    · rcases List.mem_cons.1 h with h | h
      · exact .inl h
      · exact .inr (List.mem_cons_of_mem _ h)
    · rcases List.mem_cons.1 h with rfl | h
      · exact .inr List.mem_cons_self
      · exact (ih h).imp_right (List.mem_cons_of_mem _)

theorem mem_of_mem_foldl {x : κ × ν} {es : List (κ × ν)} {m : OrderedMap κ ν}
    (h : x ∈ (es.foldl (fun m e => m.insert e.1 e.2) m).entries) : x ∈ m.entries ∨ x ∈ es := by
  induction es generalizing m with
  | nil => exact .inl h
  | cons e es ih =>
    rcases ih h with h | h
    · rcases mem_of_mem_put h with rfl | h
      · exact .inr List.mem_cons_self
      · exact .inl h
    · exact .inr (List.mem_cons_of_mem e h)

/-- The entries of a map are among those it is made of. -/
theorem mem_of_mem_ofList {x : κ × ν} {es : List (κ × ν)} (h : x ∈ (ofList es).entries) :
    x ∈ es :=
  (mem_of_mem_foldl h).resolve_left List.not_mem_nil

theorem put_of_new {k : κ} {v : ν} {es : List (κ × ν)} (h : k ∉ es.map Prod.fst) :
    put k v es = es ++ [(k, v)] := by
  induction es with
  | nil => rfl
  | cons e es ih =>
    rw [List.map_cons, List.mem_cons, not_or] at h
    rw [put, if_neg (Ne.symm h.1), ih h.2, List.cons_append]

theorem entries_foldl {es : List (κ × ν)} {m : OrderedMap κ ν}
    (h : ((m.entries ++ es).map Prod.fst).Nodup) :
    (es.foldl (fun m e => m.insert e.1 e.2) m).entries = m.entries ++ es := by
  induction es generalizing m with
  | nil => exact (List.append_nil _).symm
  | cons e es ih =>
    have hnew : e.1 ∉ m.entries.map Prod.fst := by
      intro hmem
      rw [List.map_append, List.nodup_append] at h
      exact h.2.2 e.1 hmem e.1 List.mem_cons_self rfl
    have hinsert : (m.insert e.1 e.2).entries = m.entries ++ [e] := put_of_new hnew
    rw [List.foldl_cons, ih, hinsert, List.append_assoc, List.singleton_append]
    rwa [hinsert, List.append_assoc, List.singleton_append]

/-- **Entries with different keys are all kept, in their order.** -/
theorem entries_ofList {es : List (κ × ν)} (h : (es.map Prod.fst).Nodup) :
    (ofList es).entries = es :=
  entries_foldl h

end OrderedMap
end TraversalPlan

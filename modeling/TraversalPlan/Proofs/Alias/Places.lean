import Mathlib.Data.List.Nodup
import Mathlib.Data.Set.Lattice
import Mathlib.Order.CompletePartialOrder
import TraversalPlan.Plan.Basic
import TraversalPlan.Proofs.Alias.Allocation

/-!
# Places of generated columns

A generated column stands at a place: its category and the path in its name. Two columns at different
places have different names, so that names are told apart by telling sets of places apart.

* `Fresh S as`: the columns `as` have different names and stand in `S`.
* `Fresh.append`, `Fresh.flatMap_zipIdx`: columns from disjoint sets of places.
* `below`, `slot`, `own`: the places of the subqueries at a path, of one numbered subquery of a step,
  and of the operator of the step itself.
* `Plan.generated`: the generated columns of a plan at all depths.
-/

namespace TraversalPlan

/-! ## Columns of plans -/

mutual

/-- The columns that the operator and those of its subplan bind. -/
def Operator.columns : Operator → List Alias
  | apply subplan join a => columnsOf subplan ++ (apply subplan join a).boundAliases
  | o => o.boundAliases

def Operator.columnsOf : List Operator → List Alias
  | [] => []
  | o :: os => columns o ++ columnsOf os

end

namespace Alias

/-- The columns that no label of the query names. -/
def generated (as : List Alias) : List Alias := as.filter fun a => !a.userDefined

@[simp]
theorem generated_append (as bs : List Alias) :
    generated (as ++ bs) = generated as ++ generated bs := List.filter_append ..

@[simp]
theorem generated_nil : generated [] = [] := rfl

@[simp]
theorem generated_named (label : String) (as : List Alias) :
    generated (.named label :: as) = generated as := rfl

@[simp]
theorem generated_allocate (k : Category) (tag : String) (p : Position) (i : UInt32)
    (as : List Alias) :
    generated (.allocate k tag p i :: as) = .allocate k tag p i :: generated as := rfl

theorem generated_flatMap {α : Type} (f : α → List Alias) (xs : List α) :
    generated (xs.flatMap f) = xs.flatMap fun x => generated (f x) := List.filter_flatMap

end Alias

/-- The generated columns that the plan binds at all depths. -/
def Plan.generated (p : Plan) : List Alias := Alias.generated (Operator.columnsOf p.operators)

@[simp]
theorem Operator.columnsOf_nil : columnsOf [] = [] := rfl

@[simp]
theorem Operator.columnsOf_cons (o : Operator) (os : List Operator) :
    columnsOf (o :: os) = o.columns ++ columnsOf os := rfl

@[simp]
theorem Operator.columnsOf_append (os ps : List Operator) :
    columnsOf (os ++ ps) = columnsOf os ++ columnsOf ps := by
  induction os with
  | nil => rfl
  | cons o os ih => simp [ih]

theorem Operator.columnsOf_flatten (parts : List (List Operator)) :
    columnsOf parts.flatten = parts.flatMap columnsOf := by
  induction parts with
  | nil => rfl
  | cons os parts ih => simp [ih]

theorem Operator.columnsOf_filterMap {α : Type} (f : α → Option Operator) (xs : List α) :
    columnsOf (xs.filterMap f) = xs.flatMap fun x => columnsOf (f x).toList := by
  induction xs with
  | nil => rfl
  | cons x xs ih => cases h : f x <;> simp [h, ih]

namespace Alias

/-! ## Columns with different names -/

/-- A category and a path. -/
abbrev Place := Category × List UInt32

/-- Columns with different names that stand in a set of places. -/
structure Fresh (S : Set Place) (as : List Alias) : Prop where
  nodup : (as.map name).Nodup
  placed : ∀ a ∈ as, ∃ x ∈ S, a.PlacedAt x.1 x.2

namespace Fresh

variable {S T : Set Place} {as bs : List Alias}

theorem nil : Fresh S [] := ⟨List.nodup_nil, by simp⟩

theorem singleton {a : Alias} {k : Category} {path : List UInt32} (h : a.PlacedAt k path) :
    Fresh {(k, path)} [a] := ⟨List.nodup_singleton _, by simpa using h⟩

theorem mono (h : Fresh S as) (hST : S ⊆ T) : Fresh T as :=
  ⟨h.nodup, fun a ha => (h.placed a ha).imp fun _ hx => ⟨hST hx.1, hx.2⟩⟩

/-- **Columns from disjoint places.** -/
theorem append (hS : Fresh S as) (hT : Fresh T bs) (hST : Disjoint S T) :
    Fresh (S ∪ T) (as ++ bs) := by
  constructor
  · rw [List.map_append, List.nodup_append]
    refine ⟨hS.nodup, hT.nodup, ?_⟩
    intro n hn m hm hnm
    obtain ⟨a, ha, rfl⟩ := List.mem_map.1 hn
    obtain ⟨b, hb, rfl⟩ := List.mem_map.1 hm
    obtain ⟨x, hx, hax⟩ := hS.placed a ha
    obtain ⟨y, hy, hby⟩ := hT.placed b hb
    obtain rfl : x = y := Prod.ext_iff.2 (hax.eq_of_name hby hnm)
    exact Set.disjoint_left.1 hST hx hy
  · intro a ha
    rcases List.mem_append.1 ha with ha | ha
    · exact (hS.placed a ha).imp fun _ hx => ⟨.inl hx.1, hx.2⟩
    · exact (hT.placed a ha).imp fun _ hx => ⟨.inr hx.1, hx.2⟩

/-- The places of the numbers from `n` on and before `N`. -/
def span (R : Nat → Set Place) (n N : Nat) : Set Place := {x | ∃ i, n ≤ i ∧ i < N ∧ x ∈ R i}

/-- **Columns of numbered items**, if different numbers have disjoint places. -/
theorem flatMap_zipIdx {α β : Type} {P : α × Nat → β → Prop} {f : β → List Alias}
    {R : Nat → Set Place} {N : Nat} (hR : ∀ i j, i < j → j < N → Disjoint (R i) (R j)) :
    ∀ {xs : List α} {n : Nat} {ys : List β}, List.Forall₂ P (xs.zipIdx n) ys →
      (∀ x ∈ xs.zipIdx n, ∀ y, P x y → Fresh (R x.2) (f y)) → n + xs.length ≤ N →
      Fresh (span R n N) (ys.flatMap f)
  | [], n, ys, h, _, _ => by
    cases h
    exact nil
  | x :: xs, n, ys, h, hf, hN => by
    rw [List.zipIdx_cons] at h hf
    rw [List.length_cons] at hN
    cases h with
    | @cons _ y _ ys hy h =>
      have hhead : Fresh (R n) (f y) := hf (x, n) List.mem_cons_self y hy
      have htail : Fresh (span R (n + 1) N) (ys.flatMap f) :=
        flatMap_zipIdx hR h (fun z hz => hf z (List.mem_cons_of_mem _ hz)) (by omega)
      rw [List.flatMap_cons]
      refine (hhead.append htail ?_).mono ?_
      · rw [Set.disjoint_left]
        rintro z hz ⟨i, hi, hiN, hzi⟩
        exact Set.disjoint_left.1 (hR n i (by omega) hiN) hz hzi
      · rintro z (hz | ⟨i, hi, hiN, hz⟩)
        · exact ⟨n, le_refl n, by omega, hz⟩
        · exact ⟨i, by omega, hiN, hz⟩

end Fresh

/-! ## Places under a path -/

/-- A path with a number behind it. -/
def nested (path : List UInt32) (i : Nat) : List UInt32 := path ++ [UInt32.ofNat i]

/-- The places at a path or under it. -/
def within (path : List UInt32) : Set Place := {x | path <+: x.2}

/-- The places under a path. -/
def below (path : List UInt32) : Set Place := {x | ∃ i, x ∈ within (path ++ [i])}

/-- The category of a column that holds the result of a subquery. -/
def Category.isSubquery : Category → Bool
  | subquery | tagSubquery => true
  | _ => false

/-- The places of the subquery with a number, its own column included. -/
def slot (path : List UInt32) (i : Nat) : Set Place :=
  {x | x ∈ within (nested path i) ∧ (x.2 = nested path i → x.1.isSubquery)}

/-- The places of the columns of a step that hold no subquery. -/
def own (path : List UInt32) : Set Place :=
  {x | ∃ i, x.2 = path ++ [i] ∧ x.1.isSubquery = false}

variable {path : List UInt32}

/-- Numbers of 32 bits are told apart. -/
theorem nested_ne {i j : Nat} (hij : i < j) (hj : j < UInt32.size) : nested path i ≠ nested path j := by
  intro h
  have h32 : UInt32.ofNat i = UInt32.ofNat j := by simpa [nested] using h
  have := congrArg UInt32.toNat h32
  rw [UInt32.toNat_ofNat_of_lt' (by omega), UInt32.toNat_ofNat_of_lt' hj] at this
  omega

theorem disjoint_within {p q : List UInt32} (hlen : p.length = q.length) (h : p ≠ q) :
    Disjoint (within p) (within q) := by
  rw [Set.disjoint_left]
  intro x hp hq
  have hpq : p <+: q := List.prefix_of_prefix_length_le hp hq hlen.le
  exact h (hpq.eq_of_length hlen)

theorem disjoint_within_nested {i j : Nat} (hij : i < j) (hj : j < UInt32.size) :
    Disjoint (within (nested path i)) (within (nested path j)) :=
  disjoint_within (by simp [nested]) (nested_ne hij hj)

theorem disjoint_slot {i j : Nat} (hij : i < j) (hj : j < UInt32.size) :
    Disjoint (slot path i) (slot path j) :=
  (disjoint_within_nested hij hj).mono (fun _ hx => hx.1) (fun _ hx => hx.1)

theorem slot_subset_below (i : Nat) : slot path i ⊆ below path := fun _ hx => ⟨_, hx.1⟩

theorem own_subset_below : own path ⊆ below path := by
  rintro x ⟨i, hx, -⟩
  exact ⟨i, [], (List.append_nil _).trans hx.symm⟩

theorem below_nested_subset (i : Nat) : below (nested path i) ⊆ below path := by
  rintro x ⟨j, hj⟩
  exact ⟨_, (List.prefix_append _ _).trans hj⟩

/-- The paths under a path are longer. -/
theorem ne_of_mem_below {x : Place} (hx : x ∈ below path) : x.2 ≠ path := by
  obtain ⟨i, hi⟩ := hx
  intro heq
  have hle := List.IsPrefix.length_le hi
  rw [heq, List.length_append, List.length_singleton] at hle
  omega

/-- The columns of a step are none of its subqueries. -/
theorem disjoint_slot_own {i : Nat} : Disjoint (slot path i) (own path) := by
  rw [Set.disjoint_left]
  rintro ⟨k, q⟩ ⟨hin, hsub⟩ ⟨j, hq, hown⟩
  dsimp only at hq hown
  subst hq
  have heq : nested path i = path ++ [j] := List.IsPrefix.eq_of_length hin (by simp [nested])
  rw [hsub heq.symm] at hown
  cases hown

end Alias
end TraversalPlan

import TraversalPlan.Traversal.Defaults

/-!
# The width of a traversal

* `Traversal.width`: the length of the longest list in a traversal at any depth, be it of steps,
  modulators, keys or comparisons.
* `Traversal.Fits`: the steps of the traversal and of the traversals inside it can be numbered with
  32 bits. A traversal of small width fits, also from the record of a tag (`fits_rootedAt`).
-/

namespace TraversalPlan

mutual

/-- The length of the longest list in the traversal. -/
def Traversal.width : Traversal → Nat
  | ⟨steps⟩ => max steps.length (stepsWidth steps)

/-- The largest width of several steps. -/
def stepsWidth : List Step → Nat
  | [] => 0
  | s :: rest => max (Step.width s) (stepsWidth rest)

def Step.width : Step → Nat
  | ⟨.elementary _, _⟩ => 0
  | ⟨.modulated m, _⟩ => ModulatedStep.width m

def ModulatedStep.width : ModulatedStep → Nat
  | .select ⟨keys, bys⟩ => max keys.length (traversalsWidth bys)
  | .dedup ⟨keys, none⟩ => keys.length
  | .dedup ⟨keys, some t⟩ => max keys.length (Traversal.width t)
  | .sample ⟨_, _, none⟩ => 0
  | .sample ⟨_, _, some t⟩ => Traversal.width t
  | .order ⟨comparators⟩ => comparatorsWidth comparators
  | .group ⟨keys, values, _⟩ => max (traversalsWidth keys) (traversalsWidth values)
  | .wherePredicate ⟨_, p, selectKeys, bys⟩ =>
    max (max p.leafCount selectKeys.length) (traversalsWidth bys)
  | .whereTraversal t => Traversal.width t
  | .not t => Traversal.width t

/-- The number of several traversals, or the width of the widest. -/
def traversalsWidth : List Traversal → Nat
  | [] => 0
  | t :: rest => max (max (rest.length + 1) (Traversal.width t)) (traversalsWidth rest)

def comparatorsWidth : List Comparator → Nat
  | [] => 0
  | ⟨t, _⟩ :: rest => max (max (rest.length + 1) (Traversal.width t)) (comparatorsWidth rest)

end

/-! ## Members of lists -/

theorem width_le_stepsWidth {s : Step} : ∀ {steps : List Step}, s ∈ steps →
    s.width ≤ stepsWidth steps
  | s' :: rest, h => by
    rw [stepsWidth]
    rcases List.mem_cons.1 h with rfl | h
    · exact Nat.le_max_left _ _
    · exact Nat.le_trans (width_le_stepsWidth h) (Nat.le_max_right _ _)

theorem length_le_traversalsWidth (ts : List Traversal) : ts.length ≤ traversalsWidth ts := by
  cases ts with
  | nil => exact Nat.zero_le _
  | cons t rest =>
    rw [traversalsWidth, List.length_cons]
    omega

theorem width_le_traversalsWidth {t : Traversal} : ∀ {ts : List Traversal}, t ∈ ts →
    t.width ≤ traversalsWidth ts
  | t' :: rest, h => by
    rw [traversalsWidth]
    rcases List.mem_cons.1 h with rfl | h
    · omega
    · have := width_le_traversalsWidth h
      omega

theorem length_le_comparatorsWidth (cs : List Comparator) : cs.length ≤ comparatorsWidth cs := by
  cases cs with
  | nil => exact Nat.zero_le _
  | cons k rest =>
    obtain ⟨t, order⟩ := k
    rw [comparatorsWidth, List.length_cons]
    omega

theorem width_le_comparatorsWidth {k : Comparator} : ∀ {cs : List Comparator}, k ∈ cs →
    k.key.width ≤ comparatorsWidth cs
  | ⟨t, _⟩ :: rest, h => by
    rw [comparatorsWidth]
    rcases List.mem_cons.1 h with rfl | h
    · dsimp only
      omega
    · have := width_le_comparatorsWidth h
      omega

@[simp]
theorem width_identity : Traversal.identity.width = 0 := rfl

/-! ## Numbers of 32 bits -/

/-- The steps at all depths can be numbered with 32 bits. -/
def Traversal.Fits (t : Traversal) : Prop :=
  t.steps.length ≤ UInt32.size ∧ stepsWidth t.steps < UInt32.size

theorem Traversal.fits_of_width {t : Traversal} (h : t.width < UInt32.size) : t.Fits := by
  obtain ⟨steps⟩ := t
  rw [width] at h
  constructor <;> dsimp only <;> omega

/-- A `select` of a tag is one step more, and no wide one. -/
theorem Traversal.fits_rootedAt {t : Traversal} (tag : String) (h : t.width < UInt32.size) :
    (t.rootedAt tag).Fits := by
  unfold rootedAt
  split
  · exact fits_of_width h
  · obtain ⟨steps⟩ := t
    rw [width] at h
    have hone : (selectTag tag).width = 1 := rfl
    have hsize : 1 < UInt32.size := by decide
    constructor
    · dsimp only
      rw [List.length_cons]
      omega
    · dsimp only
      rw [stepsWidth, hone]
      omega

end TraversalPlan

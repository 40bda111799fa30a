import Mathlib.Data.List.Nodup
import TraversalPlan.Plan.Listing
import TraversalPlan.Proofs.Text.Dotted

/-!
# Listings name every operator once

An operator of a plan has a path: its index, after the indexes of the `apply` operators around it. The
rows of a listing stand for the paths of the plan, a path before the longer ones that go on from it and
these before the next index. No index of a row is written twice, and split at its points it leads back
to the operator of the row (**`Plan.operators_of_rows`**).

* `Plan.at?`: the operator that a path leads to.
* `Operator.induction_on_subplans`: what passes from a subplan and the operators behind it to a list
  of operators holds of all lists.
* `Operator.cells_eq`: a walk that hands down the text before an index writes the rows.
* `mem_rows`: there is a row for each path that leads to an operator, and no other.
* `exists_rows_of_at?`: a row is followed by the rows of its subplan.
-/

namespace TraversalPlan

/-! ## Paths to operators -/

namespace Operator

/-- The operator that a path of indexes leads to. Before the last index it goes through subplans. -/
def at? : List Nat → List Operator → Option Operator
  | [], _ => none
  | [i], os => os[i]?
  | i :: j :: path, os => os[i]?.bind fun o => at? (j :: path) o.subplan

section

variable {i j : Nat} {path : List Nat} {o : Operator} {os : List Operator}

@[simp]
theorem at?_nil : at? path [] = none := by
  match path with
  | [] => rfl
  | [i] => rfl
  | i :: j :: path => rfl

@[simp]
theorem at?_first : at? [0] (o :: os) = some o := rfl

@[simp]
theorem at?_inside : at? (0 :: j :: path) (o :: os) = at? (j :: path) o.subplan := rfl

@[simp]
theorem at?_behind : at? ((i + 1) :: path) (o :: os) = at? (i :: path) os := by
  cases path <;> rfl

end

/-- **A property of lists of operators holds of all if it passes from a subplan and the operators
behind it.** -/
@[elab_as_elim]
theorem induction_on_subplans {P : List Operator → Prop} (os : List Operator) (nil : P [])
    (cons : ∀ o os, P o.subplan → P os → P (o :: os)) : P os := by
  induction os using operatorsCount.induct (motive_1 := fun o => P o.subplan) with
  | case1 subplan join column ih => exact ih
  | case2 o hne =>
    cases o with
    | apply subplan join column => exact absurd rfl (hne subplan join column)
    | _ => exact nil
  | case3 => exact nil
  | case4 o os hsubplan hos => exact cons o os hsubplan hos

end Operator

/-- The operator that a path of indexes leads to. -/
def Plan.at? (p : Plan) (path : List Nat) : Option Operator := Operator.at? path p.operators

/-! ## Rows -/

/-- The row of a plan that stands at a path. -/
def Row.under (path : List Nat) (r : Row) : Row := { r with path := path ++ r.path }

theorem Row.under_under (p q : List Nat) (r : Row) : (r.under q).under p = r.under (p ++ q) := by
  simp [under]

namespace Operator

variable {i : Nat} {path : List Nat} {o : Operator} {os : List Operator}

theorem operatorCount_eq (o : Operator) : o.operatorCount = 1 + operatorsCount o.subplan := by
  cases o <;> rfl

theorem rows_cons (path : List Nat) (i : Nat) (o : Operator) (os : List Operator) :
    rows path i (o :: os) = ⟨path ++ [i], o.name, o.detail⟩ ::
      (rows (path ++ [i]) 0 o.subplan ++ rows path (i + 1) os) := by
  cases o <;> simp [rows, subplan]

theorem length_rows (path : List Nat) (i : Nat) (os : List Operator) :
    (rows path i os).length = operatorsCount os := by
  induction os using induction_on_subplans generalizing path i with
  | nil => simp [rows, operatorsCount]
  | cons o os hsubplan hos =>
    simp only [rows_cons, List.length_cons, List.length_append, hsubplan, hos, operatorsCount,
      operatorCount_eq]
    omega

/-- The rows of a subplan have the path of their operator before their own. -/
theorem rows_eq_map (path : List Nat) (i : Nat) (os : List Operator) :
    rows path i os = (rows [] i os).map (Row.under path) := by
  induction os using induction_on_subplans generalizing path i with
  | nil => simp [rows]
  | cons o os hsubplan hos =>
    have hinner : rows (path ++ [i]) 0 o.subplan =
        (rows [i] 0 o.subplan).map (Row.under path) := by
      rw [hsubplan (path ++ [i]), hsubplan [i], List.map_map]
      refine List.map_congr_left fun r _ => ?_
      exact (Row.under_under path [i] r).symm
    rw [rows_cons, rows_cons [], hinner, hos path, List.map_cons, List.map_append]
    rfl

/-- The cells of the rows, written in one walk. The text before an index is handed down to the
subplan with the index and a point behind it. -/
def cells (front : String) (i : Nat) : List Operator → List (List String)
  | [] => []
  | apply subplan join a :: rest =>
    [front ++ i.repr, (apply subplan join a).name, (apply subplan join a).detail] ::
      (cells (front ++ i.repr ++ ".") 0 subplan ++ cells front (i + 1) rest)
  | o :: rest => [front ++ i.repr, o.name, o.detail] :: cells front (i + 1) rest

theorem cells_cons (front : String) (i : Nat) (o : Operator) (os : List Operator) :
    cells front i (o :: os) = [front ++ i.repr, o.name, o.detail] ::
      (cells (front ++ i.repr ++ ".") 0 o.subplan ++ cells front (i + 1) os) := by
  cases o <;> simp [cells, subplan]

/-- **The walk writes the cells of the rows.** -/
theorem cells_eq (path : List Nat) (i : Nat) (os : List Operator) :
    cells (dottedFront path) i os = (rows path i os).map Row.cells := by
  induction os using induction_on_subplans generalizing path i with
  | nil => simp [cells, rows]
  | cons o os hsubplan hos =>
    have hindex : Row.index ⟨path ++ [i], o.name, o.detail⟩ = dottedFront path ++ i.repr :=
      dotted_concat path i
    rw [cells_cons, rows_cons, List.map_cons, List.map_append, ← hos, ← hsubplan,
      dottedFront_concat, Row.cells, hindex]

/-- **There is a row for each path that leads to an operator**, and no other. -/
theorem mem_rows {r : Row} : r ∈ rows [] i os ↔
    ∃ k path o, at? (k :: path) os = some o ∧ r = ⟨(i + k) :: path, o.name, o.detail⟩ := by
  induction os using induction_on_subplans generalizing i r with
  | nil => simp [rows]
  | cons o os hsubplan hos =>
    rw [rows_cons, List.mem_cons, List.mem_append, List.nil_append, rows_eq_map [i], List.mem_map,
      hos]
    constructor
    · rintro (rfl | ⟨r, hr, rfl⟩ | ⟨k, path, o', ho, rfl⟩)
      · exact ⟨0, [], o, rfl, rfl⟩
      · obtain ⟨k, path, o', ho, rfl⟩ := hsubplan.1 hr
        refine ⟨0, k :: path, o', ho, ?_⟩
        simp [Row.under]
      · refine ⟨k + 1, path, o', by simpa using ho, ?_⟩
        rw [Nat.add_assoc, Nat.add_comm 1 k]
    · rintro ⟨_ | k, path, o', ho, rfl⟩
      · cases path with
        | nil =>
          obtain rfl : o = o' := by simpa using ho
          exact .inl rfl
        | cons j path =>
          refine .inr (.inl ⟨⟨j :: path, o'.name, o'.detail⟩, ?_, rfl⟩)
          exact hsubplan.2 ⟨j, path, o', ho, by simp⟩
      · refine .inr (.inr ⟨k, path, o', by simpa using ho, ?_⟩)
        rw [Nat.add_assoc, Nat.add_comm 1 k]

/-- **The rows come in the order of their paths.** -/
theorem ascending_rows (i : Nat) (os : List Operator) :
    ((rows [] i os).map Row.path).Pairwise (· < ·) := by
  induction os using induction_on_subplans generalizing i with
  | nil => simp [rows]
  | cons o os hsubplan hos =>
    have hinner : ((rows [i] 0 o.subplan).map Row.path).Pairwise (· < ·) := by
      rw [rows_eq_map, List.map_map, List.pairwise_map]
      have hown := List.pairwise_map.1 (hsubplan 0)
      refine hown.imp fun h => ?_
      simpa [Row.under, List.cons_lt_cons_iff] using h
    -- inside the operator a path goes on from its index, and behind it the index is larger
    have hinside : ∀ r ∈ rows [i] 0 o.subplan, ∃ j path, r.path = i :: j :: path := by
      intro r hr
      rw [rows_eq_map, List.mem_map] at hr
      obtain ⟨r', hr', rfl⟩ := hr
      obtain ⟨k, path, o', -, rfl⟩ := mem_rows.1 hr'
      exact ⟨0 + k, path, rfl⟩
    have hbehind : ∀ r ∈ rows [] (i + 1) os, ∃ j path, i < j ∧ r.path = j :: path := by
      intro r hr
      obtain ⟨k, path, o', -, rfl⟩ := mem_rows.1 hr
      exact ⟨i + 1 + k, path, by omega, rfl⟩
    rw [rows_cons, List.map_cons, List.map_append, List.nil_append, List.pairwise_cons,
      List.pairwise_append]
    refine ⟨?_, hinner, hos (i + 1), ?_⟩
    · simp only [← List.map_append, List.forall_mem_map, List.forall_mem_append]
      constructor
      · intro r hr
        obtain ⟨j, path, hpath⟩ := hinside r hr
        simp [hpath]
      · intro r hr
        obtain ⟨j, path, hj, hpath⟩ := hbehind r hr
        simp [hpath, List.cons_lt_cons_iff, hj]
    · simp only [List.forall_mem_map]
      intro r hr r' hr'
      obtain ⟨j, path, hpath⟩ := hinside r hr
      obtain ⟨j', path', hj', hpath'⟩ := hbehind r' hr'
      simp [hpath, hpath', List.cons_lt_cons_iff, hj']

/-- **The rows of a subplan come right after the row of its operator.** -/
theorem exists_rows_of_at? {k : Nat} (h : at? (k :: path) os = some o) (i : Nat) :
    ∃ before after, rows [] i os = before ++ ⟨(i + k) :: path, o.name, o.detail⟩ ::
      (rows ((i + k) :: path) 0 o.subplan ++ after) := by
  induction os using induction_on_subplans generalizing i k path with
  | nil => simp at h
  | cons first os hsubplan hos =>
    rw [rows_cons, List.nil_append]
    cases k with
    | succ k =>
      obtain ⟨before, after, hrows⟩ := hos (by simpa using h) (i + 1)
      have hindex : i + 1 + k = i + (k + 1) := by omega
      rw [hrows, hindex]
      exact ⟨⟨[i], first.name, first.detail⟩ :: (rows [i] 0 first.subplan ++ before), after,
        by simp⟩
    | zero =>
      cases path with
      | nil =>
        obtain rfl : first = o := by simpa using h
        exact ⟨[], rows [] (i + 1) os, rfl⟩
      | cons j path =>
        obtain ⟨before, after, hrows⟩ := hsubplan h 0
        have hinner := congrArg (List.map (Row.under [i])) hrows
        rw [← rows_eq_map, List.map_append, List.map_cons, List.map_append,
          rows_eq_map (_ :: path), List.map_map, Nat.zero_add] at hinner
        have hunder : Row.under [i] ∘ Row.under (j :: path) = Row.under (i :: j :: path) :=
          funext fun r => Row.under_under [i] (j :: path) r
        rw [hinner, hunder, ← rows_eq_map]
        exact ⟨⟨[i], first.name, first.detail⟩ :: before.map (Row.under [i]),
          after.map (Row.under [i]) ++ rows [] (i + 1) os, by simp [Row.under]⟩

end Operator

/-! ## Listings -/

namespace Plan

open Operator

/-- **A listing names every operator once.** There are as many rows as operators at all depths. They
come in the order of their paths, so that the row of an operator is followed by those of its subplan
and then by those behind it. The indexes of the rows are different, and the numbers between the points
of an index lead to the operator that the row names. -/
theorem operators_of_rows (p : Plan) :
    p.rows.length = p.operatorCount ∧
      (p.rows.map Row.path).Pairwise (· < ·) ∧
      (∀ path o, p.at? path = some o → ∃ before after,
        p.rows = before ++ ⟨path, o.name, o.detail⟩ ::
          ((Plan.mk o.subplan).rows.map (Row.under path) ++ after)) ∧
      (p.rows.map Row.index).Nodup ∧
      ∀ r ∈ p.rows, undotted? r.index = some r.path ∧
        ∃ o, p.at? r.path = some o ∧ r.operator = o.name ∧ r.detail = o.detail := by
  have hascending : (p.rows.map Row.path).Pairwise (· < ·) := ascending_rows 0 p.operators
  refine ⟨length_rows [] 0 p.operators, hascending, ?_, ?_, ?_⟩
  · intro path o ho
    cases path with
    | nil => cases ho
    | cons k path =>
      obtain ⟨before, after, hrows⟩ := exists_rows_of_at? ho 0
      rw [Nat.zero_add, rows_eq_map (k :: path)] at hrows
      exact ⟨before, after, hrows⟩
  · have hpaths : (p.rows.map Row.path).Nodup := by
      refine hascending.imp fun {path path'} h heq => ?_
      rw [heq] at h
      exact List.lt_irrefl path' h
    have hindexes : p.rows.map Row.index = (p.rows.map Row.path).map dotted := by
      rw [List.map_map]
      rfl
    rw [hindexes]
    exact hpaths.map fun _ _ => dotted_inj
  · intro r hr
    obtain ⟨k, path, o, ho, rfl⟩ := mem_rows.1 hr
    rw [Nat.zero_add]
    exact ⟨undotted?_dotted (List.cons_ne_nil k path), o, ho, rfl, rfl⟩

/-- The vertices sorted by a subquery that has a subquery itself. -/
def sortedByFriends : Plan :=
  let known := Operator.apply [.expand .incoming .vertex []] .semi none
  let friends := Operator.apply [.expand .outgoing .vertex [], known] .inner
    (some ⟨"~expr_1_0", false⟩)
  ⟨[.source .vertex [], friends, .order [⟨"@~expr_1_0", .descending⟩]]⟩

theorem operators_of_rows_sortedByFriends :
    sortedByFriends.rows.map Row.index = ["0", "1", "1.0", "1.1", "1.1.0", "2"] ∧
      (∃ before after, sortedByFriends.rows = before ++ ⟨[1, 1], "Apply", "Semi -> -"⟩ ::
        (⟨[1, 1, 0], "Expand", "Incoming Vertex []"⟩ :: after)) ∧
      undotted? "1.1.0" = some [1, 1, 0] ∧
      ∃ o, sortedByFriends.at? [1, 1, 0] = some o ∧ o.name = "Expand" := by
  have hindexes : sortedByFriends.rows.map Row.index = ["0", "1", "1.0", "1.1", "1.1.0", "2"] := by
    cbv
  obtain ⟨-, -, hfollowed, -, hnamed⟩ := operators_of_rows sortedByFriends
  obtain ⟨before, after, hrows⟩ := hfollowed [1, 1] _ rfl
  have hinner : (Plan.mk [.expand .incoming .vertex []]).rows.map (Row.under [1, 1]) =
      [⟨[1, 1, 0], "Expand", "Incoming Vertex []"⟩] := by cbv
  have hafter : sortedByFriends.rows = before ++ ⟨[1, 1], "Apply", "Semi -> -"⟩ ::
      (⟨[1, 1, 0], "Expand", "Incoming Vertex []"⟩ :: after) := by
    rw [hrows]
    exact congrArg (fun rows => before ++ ⟨[1, 1], "Apply", "Semi -> -"⟩ :: (rows ++ after)) hinner
  have hmem : ⟨[1, 1, 0], "Expand", "Incoming Vertex []"⟩ ∈ sortedByFriends.rows := by
    simp [hafter]
  obtain ⟨hindex, o, ho, hname, -⟩ := hnamed _ hmem
  exact ⟨hindexes, ⟨before, after, hafter⟩, hindex, o, ho, hname.symm⟩

end Plan
end TraversalPlan

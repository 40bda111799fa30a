import Mathlib.Data.List.Nodup
import TraversalPlan.Proofs.Alias.Distinct
import TraversalPlan.Proofs.Lowering.Output

/-!
# Columns of one operator

An operator binds the columns that later operators refer to by name. Most bind one at most. The
columns of a projection are named after its keys, which differ. Those of a grouping are generated
names, which differ too, and the labels that the query gives to the keys, of which nothing is asked:
an operator binds no name twice just if it is no grouping or its labels differ from each other and
from the generated names beside them (**`columns_of_build`**).

* `Alias.LabelsApart`: the labels among some columns differ from each other and from the rest.
* `Operator.Inside`: the operators of a plan at all depths.
* `Operator.ColumnsApart`: what holds of the columns of an operator whatever the labels are.
* `ModulatedStep.allApart_of_writes`: it holds of the operator that a rule writes.
* `Builder.keepsApart_ofSteps`: the step from subqueries to traversals.
-/

namespace TraversalPlan

/-! ## Labels beside generated names -/

namespace Alias

/-- The columns that labels of the query name. -/
def labels (as : List Alias) : List Alias := as.filter userDefined

/-- The labels among some columns differ from each other and from the generated names. -/
def LabelsApart (as : List Alias) : Prop :=
  ((labels as).map name).Nodup ∧ ((labels as).map name).Disjoint ((generated as).map name)

/-- Different names are different labels and different generated names, apart from each other. -/
theorem nodup_names_iff (as : List Alias) :
    (as.map name).Nodup ↔ LabelsApart as ∧ ((generated as).map name).Nodup := by
  have hperm : (labels as ++ generated as).Perm as := List.filter_append_perm userDefined as
  rw [← (hperm.map name).nodup_iff, List.map_append, List.nodup_append', LabelsApart]
  tauto

theorem nodup_names_of_length_le_one {as : List Alias} (h : as.length ≤ 1) :
    (as.map name).Nodup := by
  match as, h with
  | [], _ => exact List.nodup_nil
  | [a], _ => exact List.nodup_singleton a.name

/-- Columns of one step that are generated for different tags have different names. -/
theorem nodup_allocated {keys : List String} (h : keys.Nodup) (k : Category) (p : Position)
    (number : Nat → UInt32) :
    ((keys.zipIdx.map fun x => allocate k x.1 p (number x.2)).map name).Nodup := by
  have hfst : (keys.zipIdx.map Prod.fst).Nodup := by rwa [List.zipIdx_map_fst]
  rw [List.map_map]
  rw [List.Nodup, List.pairwise_map] at hfst ⊢
  refine hfst.imp fun {x y} hne hname => hne ?_
  exact (allocateChars_inj (String.ofList_inj.1 hname)).2.1

end Alias

/-! ## Operators at all depths -/

namespace Operator

/-- The operator stands in a list of operators or, at any depth, in the subplan of one. -/
inductive Inside (o : Operator) : List Operator → Prop
  | here {ops : List Operator} (h : o ∈ ops) : Inside o ops
  | within {ops subplan : List Operator} {join : JoinKind} {column : Option Alias}
    (mem : apply subplan join column ∈ ops) (inside : Inside o subplan) : Inside o ops

theorem Inside.append {o : Operator} {os ps : List Operator} (h : o.Inside (os ++ ps)) :
    o.Inside os ∨ o.Inside ps := by
  cases h with
  | here h => exact (List.mem_append.1 h).imp .here .here
  | within mem inside =>
    exact (List.mem_append.1 mem).imp (.within · inside) (.within · inside)

theorem Inside.of_singleton {o p : Operator} (h : o.Inside [p]) : o = p ∨ o.Inside p.subplan := by
  cases h with
  | here h => exact .inl (List.mem_singleton.1 h)
  | within mem inside =>
    rw [← List.mem_singleton.1 mem]
    exact .inr inside

/-! ## Columns that differ whatever the labels are -/

/-- The columns of the operator have different names, but for the labels of a grouping. The names
that a grouping generates differ unless there are so many that numbers of 32 bits do not tell them
apart. -/
def ColumnsApart : Operator → Prop
  | group keys values => keys.length ≤ UInt32.size → values.length ≤ UInt32.size →
      ((Alias.generated (group keys values).boundAliases).map Alias.name).Nodup
  | o => (o.boundAliases.map Alias.name).Nodup

theorem columnsApart_of_nodup {o : Operator} (h : (o.boundAliases.map Alias.name).Nodup) :
    o.ColumnsApart := by
  cases o with
  | group keys values => exact fun _ _ => ((Alias.nodup_names_iff _).1 h).2
  | _ => exact h

theorem columnsApart_of_length_le_one {o : Operator} (h : o.boundAliases.length ≤ 1) :
    o.ColumnsApart := columnsApart_of_nodup (Alias.nodup_names_of_length_le_one h)

theorem columnsApart_apply (os : List Operator) (join : JoinKind) (column : Option Alias) :
    (apply os join column).ColumnsApart := by
  refine columnsApart_of_length_le_one ?_
  cases column <;> simp [boundAliases]

/-- The columns of each operator of a list are apart, at all depths. -/
def AllApart (ops : List Operator) : Prop := ∀ o : Operator, o.Inside ops → o.ColumnsApart

theorem allApart_nil : AllApart [] := by
  intro o ho
  cases ho with
  | here h => cases h
  | within mem _ => cases mem

theorem allApart_append {os ps : List Operator} (hos : AllApart os) (hps : AllApart ps) :
    AllApart (os ++ ps) := fun o ho => ho.append.elim (hos o) (hps o)

theorem allApart_singleton {p : Operator} (h : p.ColumnsApart) (hsub : AllApart p.subplan) :
    AllApart [p] := by
  intro o ho
  rcases ho.of_singleton with rfl | ho
  · exact h
  · exact hsub o ho

theorem allApart_apply {os : List Operator} (h : AllApart os) (join : JoinKind)
    (column : Option Alias) : AllApart [apply os join column] :=
  allApart_singleton (columnsApart_apply os join column) h

end Operator

open Operator

/-! ## Rules -/

/-- Subqueries have operators whose columns are apart. -/
def Builder.KeepsApart (build : Builder) : Prop :=
  ∀ t scope plan, (build t scope).result = .ok plan → AllApart plan.operators

section Rules

variable {c : Context}

/-- **The columns of a projection** are named after its keys. -/
theorem SelectStep.nodup_of_columns {s : SelectStep} (hkeys : s.keys.Nodup)
    {items : List ProjectItem} (hcolumns : items.map ProjectItem.column =
      s.keys.zipIdx.map fun (key, i) =>
        if s.keys.length = 1 then none else some (c.column .projectedTag key i)) :
    ((project items).boundAliases.map Alias.name).Nodup := by
  have hbound : (project items).boundAliases = (items.map ProjectItem.column).filterMap id := by
    rw [List.filterMap_map]
    rfl
  rw [hbound, hcolumns]
  by_cases hone : s.keys.length = 1
  · -- the only key binds nothing
    simp [hone, List.filterMap_map]
  · simp only [hone, if_false, List.filterMap_map, Function.comp_def, id,
      List.filterMap_eq_map']
    exact Alias.nodup_allocated hkeys ..

/-- **The operator that a rule writes has its columns apart**, and so have the operators of its
subplan. -/
theorem ModulatedStep.allApart_of_writes (hbuild : c.build.KeepsApart) {m : ModulatedStep}
    (hfault : m.fault? = none) {es : List String} {o : Operator} (h : m.Writes c es o) :
    AllApart [o] := by
  cases h with
  | select s items columns =>
    have hkeys : s.keys.Nodup := by
      by_contra hrepeated
      by_cases hnil : s.keys = []
      · exact hrepeated (hnil ▸ List.nodup_nil)
      · simp [fault?, hnil, hrepeated] at hfault
    exact allApart_singleton (columnsApart_of_nodup (SelectStep.nodup_of_columns hkeys columns))
      allApart_nil
  | group s keys values columns aggregates =>
    exact allApart_singleton
      (fun hkeys hvals => (GroupStep.fresh_own hkeys hvals columns aggregates).nodup) allApart_nil
  | semi t plan _ lowered => exact allApart_apply (hbuild t _ plan lowered) _ _
  | anti t plan _ lowered => exact allApart_apply (hbuild t _ plan lowered) _ _
  | _ => exact allApart_singleton (columnsApart_of_length_le_one (Nat.zero_le 1)) allApart_nil

theorem allApart_subqueries (hbuild : c.build.KeepsApart) {slots : List Slot}
    {ops : List Operator} (h : List.Forall₂ (fun s o => s.IsSubquery c o) slots ops) :
    AllApart ops := by
  induction h with
  | nil => exact allApart_nil
  | cons hsubquery _ ih =>
    obtain ⟨plan, hplan, rfl⟩ := hsubquery
    exact allApart_append (allApart_apply (hbuild _ _ plan hplan) _ _) ih

theorem ModulatedStep.allApart_of_lowerIn (hbuild : c.build.KeepsApart) {m : ModulatedStep}
    {ops : List Operator} (h : (m.lowerIn c).result = .ok ops) : AllApart ops := by
  have hfault : m.fault? = none := (lowerIn_eq_ok.1 h).1
  obtain ⟨subqueries, operator, rfl, hsubqueries, hwrites⟩ := operators_of_lowerIn h
  exact allApart_append (allApart_subqueries hbuild hsubqueries)
    (allApart_of_writes hbuild hfault hwrites)

theorem ElementaryStep.allApart_of_lower {s : ElementaryStep} {position : Position}
    {ops : List Operator} (h : s.lower position = .ok ops) : AllApart ops := by
  -- an elementary step is one operator at most, which has no subplan
  have hone : ∀ {o : Operator}, o.boundAliases.length ≤ 1 → AllApart o.subplan → AllApart [o] :=
    fun hlen hsub => allApart_singleton (columnsApart_of_length_le_one hlen) hsub
  obtain ⟨-, rfl⟩ := lower_eq_ok.1 h
  cases s with
  | hasLabel labels =>
    cases labels with
    | nil => exact allApart_nil
    | cons l labels => exact hone (Nat.zero_le 1) allApart_nil
  | identity => exact allApart_nil
  | reduce r => exact hone le_rfl allApart_nil
  | _ => exact hone (Nat.zero_le 1) allApart_nil

end Rules

/-! ## Steps and traversals -/

theorem Step.allApart_binding (s : Step) : AllApart s.binding := by
  obtain ⟨kind, _ | ⟨label, labels⟩⟩ := s
  · exact allApart_nil
  · exact allApart_singleton (columnsApart_of_length_le_one le_rfl) allApart_nil

theorem Step.allApart_lower {build : Builder} (hbuild : build.KeepsApart) {config : Config}
    {s : Step} {position : Position} {ops : List Operator}
    (h : (s.lower build config position).result = .ok ops) : AllApart ops := by
  obtain ⟨kind, labels⟩ := s
  obtain ⟨own, hown, rfl⟩ := Step.lower_eq_ok.1 h
  have hown : AllApart own := by
    cases kind with
    | elementary s => exact s.allApart_of_lower (StepKind.lowerIn_elementary_eq_ok.1 hown)
    | modulated m => exact m.allApart_of_lowerIn hbuild hown
  exact allApart_append hown (allApart_binding _)

theorem allApart_steps {build : Builder} (hbuild : build.KeepsApart) {config : Config}
    {scope : Position} {steps : List (Step × Nat)} {parts : List (List Operator)}
    (h : List.Forall₂ (fun x ops => (Step.lower build config x.1 (scope.child x.2)).result = .ok ops)
      steps parts) : AllApart parts.flatten := by
  induction h with
  | nil => exact allApart_nil
  | cons hops _ ih => exact allApart_append (Step.allApart_lower hbuild hops) ih

/-- **If the columns of subqueries are apart, so are those of traversals.** -/
theorem Builder.keepsApart_ofSteps {build : Builder} (hbuild : build.KeepsApart) (config : Config) :
    (ofSteps build config).KeepsApart := by
  intro t scope plan h
  obtain ⟨parts, hparts, rfl⟩ := ofSteps_eq_ok.1 h
  exact allApart_steps hbuild hparts

theorem Builder.keepsApart_inner (config : Config) : ∀ depth, (inner config depth).KeepsApart
  | 0 => by
    intro t scope plan h
    obtain rfl := Except.ok.inj h
    exact allApart_nil
  | depth + 1 => by
    rw [inner, ofDepth_eq_ofSteps]
    exact keepsApart_ofSteps (keepsApart_inner config depth) config

/-- **No operator but a grouping binds a name twice**, at whatever depth it stands. A grouping binds
its names once just if its labels differ from each other and from the names generated for the keys
and values beside them. If steps are lowered at the same time, they may end in any order. -/
theorem Traversal.columns_of_build {order : List Nat} {config : Config} {t : Traversal}
    {scope : Position} {plan : Plan} (h : (t.buildEnding order config scope).result = .ok plan)
    {o : Operator} (ho : o.Inside plan.operators) :
    ((∀ keys values, o ≠ group keys values) → (o.boundAliases.map Alias.name).Nodup) ∧
      ∀ keys values, o = group keys values →
        keys.length ≤ UInt32.size → values.length ≤ UInt32.size →
        ((o.boundAliases.map Alias.name).Nodup ↔ Alias.LabelsApart o.boundAliases) := by
  obtain ⟨depth, parts, hparts, rfl⟩ := steps_of_build h
  have hapart : o.ColumnsApart := allApart_steps (Builder.keepsApart_inner config depth) hparts o ho
  constructor
  · intro hne
    cases o with
    | group keys values => exact absurd rfl (hne keys values)
    | _ => exact hapart
  · rintro keys values rfl hkeys hvalues
    rw [Alias.nodup_names_iff]
    exact and_iff_left (hapart hkeys hvalues)

open Traversal in
/-- Counts neighbours by two properties, with a label for each. -/
def countedBy (first second : String) : Traversal :=
  (identity.outgoing []).modulated (.group
    ⟨[(identity.values "name").labelled first, (identity.values "age").labelled second], [], true⟩)

/-- Keeps the vertices that have such counts. -/
def whereCountedBy (first second : String) : Traversal :=
  (Traversal.identity.vertices []).modulated (.whereTraversal (countedBy first second))

theorem columns_of_build_whereCountedBy :
    ∃ (plan : Plan) (o : Operator), ((whereCountedBy "k" "l").build .standard .root).result = .ok plan ∧
      o.Inside plan.operators ∧
      o.boundAliases.map Alias.name = ["k", "l", "~values_1_0_1_0"] ∧
      ((o.boundAliases.map Alias.name).Nodup ↔ Alias.LabelsApart o.boundAliases) := by
  let keys : List GroupKey := [⟨"@.name", .named "k"⟩, ⟨"@.age", .named "l"⟩]
  let values : List Aggregate := [⟨.count, none, ⟨"~values_1_0_1_0", false⟩⟩]
  have hplan : ((whereCountedBy "k" "l").build .standard .root).result = .ok
      ⟨[source .vertex [], apply [expand .outgoing .vertex [], group keys values] .semi none]⟩ := by
    cbv
  have hinside : (group keys values).Inside
      [source .vertex [], apply [expand .outgoing .vertex [], group keys values] .semi none] :=
    .within (List.mem_cons_of_mem _ List.mem_cons_self)
      (.here (List.mem_cons_of_mem _ List.mem_cons_self))
  have hnodup := (Traversal.columns_of_build hplan hinside).2 keys values rfl
    (Nat.le_of_ble_eq_true rfl) (Nat.le_of_ble_eq_true rfl)
  exact ⟨_, _, hplan, hinside, rfl, hnodup⟩

/-- The operator that counts by two labels. -/
def groupBy (first second : String) : Operator :=
  group [⟨"@.name", .named first⟩, ⟨"@.age", .named second⟩]
    [⟨.count, none, ⟨"~values_1_0", false⟩⟩]

theorem build_countedBy (first second : String) :
    ((countedBy first second).build .standard .root).result =
      .ok ⟨[expand .outgoing .vertex [], groupBy first second]⟩ := by
  cbv

/-- Nothing is asked of the labels: they may repeat, or be what is generated for a value. -/
theorem labels_bound_twice :
    (∃ (plan : Plan) (o : Operator),
      ((countedBy "k" "k").build .standard .root).result = .ok plan ∧
        o.Inside plan.operators ∧ ¬ (o.boundAliases.map Alias.name).Nodup) ∧
    ∃ (plan : Plan) (o : Operator),
      ((countedBy "k" "~values_1_0").build .standard .root).result = .ok plan ∧
        o.Inside plan.operators ∧ ¬ (o.boundAliases.map Alias.name).Nodup := by
  have hinside : ∀ first second, (groupBy first second).Inside
      [expand .outgoing .vertex [], groupBy first second] :=
    fun _ _ => .here (List.mem_cons_of_mem _ List.mem_cons_self)
  exact ⟨⟨_, _, build_countedBy .., hinside .., by decide⟩,
    _, _, build_countedBy .., hinside .., by decide⟩

end TraversalPlan

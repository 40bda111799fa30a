import TraversalPlan.Proofs.Lowering.Depth
import TraversalPlan.Proofs.Predicate.Binding
import TraversalPlan.Traversal.Build

/-!
# Lowering under any scope

Where a traversal is lowered shows in its plan only in the generated names and in the references to
them, and in a failure only in the position. If the scope is left open, these have a path that starts
at the scope instead. A traversal has one plan of this kind, or one failure, and every scope fills it
in (**`build_under`**).

* `LocalAlias`, `LocalExpr`, `LocalOperator`, `LocalPlan`, `LocalError`: what is left open, with
  `under` to fill in a scope. The text of a filter is left open in pieces, of which some are
  references.
* `InPieces`: a text has the same pieces under all scopes. It goes through what texts are put together
  with, and so `Predicate.inPieces_flatten_bind`: flattening a predicate whose operands are bound
  commutes with filling in a scope.
* `Uniform`: a computation has one outcome, up to the scope. It goes through sequences and lists.
* `Context.uniform_fill`, `ModulatedStep.uniform_terminal`, `ModulatedStep.uniform_lowerIn`: each rule
  keeps it, if the lowering of subqueries does.
-/

namespace TraversalPlan

/-! ## Open scopes -/

/-- The position at a path from a scope on. -/
def Position.extend (scope : Position) (path : List UInt32) : Position := ⟨scope.path ++ path⟩

@[simp]
theorem Position.extend_nil (scope : Position) : scope.extend [] = scope :=
  congrArg Position.mk (List.append_nil _)

theorem Position.extend_child (scope : Position) (path : List UInt32) (i : Nat) :
    (scope.extend path).child i = scope.extend (path ++ [UInt32.ofNat i]) :=
  congrArg Position.mk (List.append_assoc _ _ _)

/-- The name of a column, given by the query or generated at a path from the scope on. -/
inductive LocalAlias where
  | given (name : String)
  | generated (category : Alias.Category) (tag : String) (path : List UInt32) (sub : UInt32)

/-- An expression that the query spells out, or a reference to a column. -/
inductive LocalExpr where
  | text (e : String)
  | column (a : LocalAlias)

structure LocalAggregate where
  kind : AggregateKind
  source : Option String
  column : LocalAlias

/-- An operator whose scope is open. -/
inductive LocalOperator where
  | source (element : ElementKind) (ids : List Value)
  | expand (direction : Direction) (element : ElementKind) (labels : List String)
  | endpoint (which : Endpoint)
  | limit (lower upper : UInt64)
  | bind (column : LocalAlias)
  | apply (subplan : List LocalOperator) (join : JoinKind) (column : Option LocalAlias)
  | project (items : List (LocalExpr × Option LocalAlias))
  | dedup (keys : List LocalExpr)
  | order (keys : List (LocalExpr × SortOrder))
  | group (keys : List (LocalExpr × LocalAlias)) (values : List LocalAggregate)
  | select (predicate : List LocalExpr)
  | sample (amount : SampleAmount) (seed : UInt64) (probability : LocalExpr)

structure LocalPlan where
  operators : List LocalOperator

/-- A failure of the step at a path from the scope on. -/
structure LocalError where
  step : String
  path : List UInt32
  fault : Fault

/-! ## Filling in a scope -/

section Under

variable (scope : Position)

def LocalAlias.under : LocalAlias → Alias
  | given name => .named name
  | generated category tag path sub => .allocate category tag (scope.extend path) sub

def LocalExpr.under : LocalExpr → String
  | text e => e
  | column a => (a.under scope).expr

/-- The text that some pieces make up. -/
def LocalExpr.joinUnder (pieces : List LocalExpr) : String :=
  String.join (pieces.map (LocalExpr.under scope))

def LocalAggregate.under (v : LocalAggregate) : Aggregate :=
  ⟨v.kind, v.source, v.column.under scope⟩

mutual

def LocalOperator.under : LocalOperator → Operator
  | source element ids => .source element ids
  | expand direction element labels => .expand direction element labels
  | endpoint which => .endpoint which
  | limit lower upper => .limit lower upper
  | bind a => .bind (a.under scope)
  | apply subplan join column =>
    .apply (LocalOperator.eachUnder subplan) join (column.map (LocalAlias.under scope))
  | project items => .project (items.map fun (e, a) =>
      ⟨e.under scope, a.map (LocalAlias.under scope)⟩)
  | dedup keys => .dedup (keys.map (LocalExpr.under scope))
  | order keys => .order (keys.map fun (e, direction) => ⟨e.under scope, direction⟩)
  | group keys values => .group (keys.map fun (e, a) => ⟨e.under scope, a.under scope⟩)
      (values.map (LocalAggregate.under scope))
  | select predicate => .select (LocalExpr.joinUnder scope predicate)
  | sample amount seed probability => .sample amount seed (probability.under scope)

def LocalOperator.eachUnder : List LocalOperator → List Operator
  | [] => []
  | o :: os => LocalOperator.under o :: LocalOperator.eachUnder os

end

@[simp]
theorem LocalExpr.joinUnder_text (s : String) : joinUnder scope [.text s] = s := by
  simp [joinUnder, LocalExpr.under]

theorem LocalOperator.eachUnder_eq : eachUnder scope = List.map (under scope) := by
  funext os
  induction os with
  | nil => rw [eachUnder, List.map_nil]
  | cons o os ih => rw [eachUnder, List.map_cons, ih]

def LocalPlan.under (plan : LocalPlan) : Plan := ⟨LocalOperator.eachUnder scope plan.operators⟩

def LocalError.under (e : LocalError) : LoweringError := ⟨⟨e.step, scope.extend e.path⟩, e.fault⟩

end Under

/-! ## Texts in pieces -/

/-- The text is made up of the same pieces under all scopes, so that a scope shows only in the
references to columns. -/
def InPieces (text : Position → String) : Prop :=
  ∃ pieces, ∀ scope, text scope = LocalExpr.joinUnder scope pieces

namespace InPieces

variable {text text' : Position → String}

theorem expr (e : LocalExpr) : InPieces fun scope => e.under scope :=
  ⟨[e], fun scope => by simp [LocalExpr.joinUnder]⟩

theorem const (s : String) : InPieces fun _ => s := expr (.text s)

theorem append (h : InPieces text) (h' : InPieces text') :
    InPieces fun scope => text scope ++ text' scope := by
  obtain ⟨pieces, hpieces⟩ := h
  obtain ⟨pieces', hpieces'⟩ := h'
  refine ⟨pieces ++ pieces', fun scope => ?_⟩
  rw [LocalExpr.joinUnder, List.map_append, String.join_append]
  exact congrArg₂ (· ++ ·) (hpieces scope) (hpieces' scope)

theorem group (h : InPieces text) (compound : Bool) :
    InPieces fun scope => Expr.group (text scope) compound := by
  cases compound with
  | false => exact h
  | true => exact ((const "(").append h).append (const ")")

end InPieces

/-- Each of the texts is made up of the same pieces under all scopes. -/
def EachInPieces (texts : Position → List String) : Prop :=
  ∃ parts, ∀ scope, texts scope = List.map (LocalExpr.joinUnder scope) parts

namespace EachInPieces

variable {text : Position → String} {texts : Position → List String}

theorem nil : EachInPieces fun _ => [] := ⟨[], fun _ => rfl⟩

theorem cons (h : InPieces text) (hrest : EachInPieces texts) :
    EachInPieces fun scope => text scope :: texts scope := by
  obtain ⟨pieces, hpieces⟩ := h
  obtain ⟨parts, hparts⟩ := hrest
  exact ⟨pieces :: parts, fun scope => congrArg₂ List.cons (hpieces scope) (hparts scope)⟩

theorem intercalate (h : EachInPieces texts) (separator : String) :
    InPieces fun scope => separator.intercalate (texts scope) := by
  obtain ⟨parts, hparts⟩ := h
  simp only [hparts]
  clear hparts
  induction parts with
  | nil => exact .const ""
  | cons pieces parts ih =>
    have hfirst : InPieces (LocalExpr.joinUnder · pieces) := ⟨pieces, fun _ => rfl⟩
    cases parts with
    | nil => exact hfirst
    | cons next parts =>
      simp only [List.map_cons, String.intercalate_cons_cons]
      exact (hfirst.append (.const separator)).append ih

end EachInPieces

namespace Predicate

variable (subject : LocalExpr)

theorem inPieces_compare (op : CompareOp) (operand : LocalExpr) :
    InPieces fun scope => subject.under scope ++ " " ++ op.symbol ++ " " ++ operand.under scope :=
  ((((InPieces.expr subject).append (.const " ")).append (.const op.symbol)).append
    (.const " ")).append (.expr operand)

mutual

/-- **The filter of bound operands is in pieces**: where the operands are bound shows only where they
stand themselves. -/
theorem inPieces_flatten_bind (p : Predicate) (es : List LocalExpr) :
    InPieces fun scope =>
      (p.bind (es.map (LocalExpr.under scope))).1.flatten (subject.under scope) := by
  match p, es with
  | compare op operand, [] => exact inPieces_compare subject op (.text operand.text)
  | compare op operand, e :: es => exact inPieces_compare subject op e
  | not p, es =>
    simp only [bind, flatten, isCompound_bind]
    exact (InPieces.const "!").append ((inPieces_flatten_bind p es).group p.isCompound)
  | all [], es => exact .const "true"
  | all [p], es => exact inPieces_flatten_bind p es
  | all (p :: q :: ps), es =>
    exact (eachInPieces_flattenEach_bindEach (p :: q :: ps) es).intercalate " && "
  | any [], es => exact .const "false"
  | any [p], es => exact inPieces_flatten_bind p es
  | any (p :: q :: ps), es =>
    exact (eachInPieces_flattenEach_bindEach (p :: q :: ps) es).intercalate " || "

theorem eachInPieces_flattenEach_bindEach (ps : List Predicate) (es : List LocalExpr) :
    EachInPieces fun scope =>
      flattenEach (subject.under scope) (bindEach ps (es.map (LocalExpr.under scope))).1 := by
  match ps with
  | [] => exact .nil
  | p :: ps =>
    simp only [bindEach_cons, flattenEach, bind_left, ← List.map_drop, isCompound_bind]
    exact .cons ((inPieces_flatten_bind p es).group p.isCompound)
      (eachInPieces_flattenEach_bindEach ps (es.drop p.leafCount))

end

end Predicate

/-! ## Computations with one outcome -/

/-- The computation has one outcome under all scopes, which `place` fills into that outcome. -/
def Uniform {α β : Type} (place : Position → β → α) (x : Position → Lowering α) : Prop :=
  (∃ b, ∀ scope, (x scope).result = .ok (place scope b)) ∨
    ∃ e : LocalError, ∀ scope, (x scope).result = .error (e.under scope)

namespace Uniform

variable {α β γ δ : Type} {place : Position → β → α} {x : Position → Lowering α}

theorem of_ok (b : β) (h : ∀ scope, (x scope).result = .ok (place scope b)) : Uniform place x :=
  .inl ⟨b, h⟩

theorem pure (b : β) : Uniform place fun scope => Pure.pure (place scope b) := of_ok b fun _ => rfl

theorem emit (events : Position → List Event) :
    Uniform (fun _ (u : Unit) => u) fun scope => Traced.emit (events scope) := of_ok () fun _ => rfl

theorem bind {place' : Position → δ → γ} {f : Position → α → Lowering γ} (hx : Uniform place x)
    (hf : ∀ b, Uniform place' fun scope => f scope (place scope b)) :
    Uniform place' fun scope => x scope >>= f scope := by
  rcases hx with ⟨b, hb⟩ | ⟨e, he⟩
  · have hbind : ∀ scope, (x scope >>= f scope).result = (f scope (place scope b)).result :=
      fun scope => by rw [Traced.bind_of_ok (hb scope)]
    rcases hf b with ⟨d, hd⟩ | ⟨e, he⟩
    · exact .inl ⟨d, fun scope => (hbind scope).trans (hd scope)⟩
    · exact .inr ⟨e, fun scope => (hbind scope).trans (he scope)⟩
  · exact .inr ⟨e, fun scope => by dsimp only; rw [Traced.bind_of_error (he scope)]⟩

theorem traverse {f : Position → γ → Lowering α} {cs : List γ}
    (h : ∀ c ∈ cs, Uniform place fun scope => f scope c) :
    Uniform (fun scope (bs : List β) => bs.map (place scope))
      fun scope => Traced.traverse (f scope) cs := by
  induction cs with
  | nil => exact pure []
  | cons c cs ih =>
    obtain ⟨hhead, htail⟩ := List.forall_mem_cons.1 h
    exact hhead.bind fun b => (ih htail).bind fun bs => pure (b :: bs)

end Uniform

/-! ## Rules -/

section Rules

/-- The lowering of subqueries has one outcome for each traversal. -/
def Builder.EachUniform (build : Builder) : Prop :=
  ∀ t path, Uniform LocalPlan.under fun scope => build t (scope.extend path)

variable {build : Builder} {config : Config} {name : String} {path : List UInt32}

variable (build config name path) in
/-- The context of a step at a path from the scope on. -/
def Context.under (scope : Position) : Context := ⟨build, config, ⟨name, scope.extend path⟩⟩

namespace Context

theorem uniform_fail {α β : Type} {place : Position → β → α} (fault : Fault) :
    Uniform place fun scope => (under build config name path scope).fail fault :=
  .inr ⟨⟨name, path, fault⟩, fun _ => rfl⟩

theorem uniform_one (x : Extraction) :
    Uniform (fun _ e => e) fun scope => (under build config name path scope).one x := by
  unfold one
  by_cases hsize : x.size = 1
  · simp only [hsize, if_true]
    exact .of_ok x.single? fun _ => rfl
  · simp only [hsize, if_false]
    exact uniform_fail _

theorem uniform_build (hbuild : build.EachUniform) (t : Traversal) (i : Nat) :
    Uniform LocalPlan.under fun scope =>
      (under build config name path scope).build t ((scope.extend path).child i) := by
  simp only [Position.extend_child]
  exact hbuild t (path ++ [UInt32.ofNat i])

/-- What stands for a slot, with its subquery if it needs one. -/
def placeResolved (scope : Position) (r : Option LocalOperator × LocalExpr) : Resolved :=
  ⟨r.1.map (LocalOperator.under scope), r.2.under scope⟩

/-- **A slot is filled in one way**, up to the scope. -/
theorem uniform_fill (hbuild : build.EachUniform) (s : Slot) :
    Uniform placeResolved fun scope => (under build config name path scope).fill s := by
  refine (uniform_one s.extraction).bind fun e => ?_
  cases e with
  | some e => exact .of_ok (none, .text e) fun _ => rfl
  | none =>
    refine (Uniform.emit _).bind fun _ => (uniform_build hbuild s.traversal s.number).bind
      fun plan => ?_
    let a : LocalAlias := .generated s.category s.label path (UInt32.ofNat s.number)
    refine .of_ok (some (.apply plan.operators .inner (some a)), .column a) fun scope => ?_
    have hcolumn : s.column (scope.extend path) = a.under scope := rfl
    simp [under, hcolumn, placeResolved, LocalOperator.under, LocalPlan.under, LocalExpr.under]

theorem uniform_existence (hbuild : build.EachUniform) (t : Traversal) (join : JoinKind) :
    Uniform LocalOperator.under
      fun scope => (under build config name path scope).existence t join := by
  refine (Uniform.emit _).bind fun _ => (uniform_build hbuild t 0).bind fun plan => ?_
  refine .of_ok (.apply plan.operators join none) fun scope => ?_
  rw [LocalOperator.under]
  rfl

end Context

theorem Traversal.uniform_filterOperator (hbuild : build.EachUniform) (t : Traversal)
    (filter : String → String) (join : JoinKind) :
    Uniform LocalOperator.under fun scope =>
      t.filterOperator (.under build config name path scope) filter join := by
  refine (Context.uniform_one t.extract).bind fun e => ?_
  cases e with
  | some e =>
    refine .of_ok (.select [.text (filter e)]) fun scope => ?_
    rw [LocalOperator.under, LocalExpr.joinUnder_text]
    rfl
  | none => exact Context.uniform_existence hbuild t join

/-! ### Groups -/

namespace GroupStep

theorem uniform_aggregate (value : Traversal) (a : LocalAlias) :
    Uniform LocalAggregate.under fun scope =>
      aggregate (.under build config name path scope) value (a.under scope) := by
  obtain ⟨kind, source, haggregate⟩ := aggregate_eq value
  simp only [haggregate]
  cases valueFault? value with
  | some fault => exact Context.uniform_fail fault
  | none => exact .of_ok ⟨kind, source, a⟩ fun _ => rfl

/-- The column of a key, of a step at a path. -/
def localKeyAlias (path : List UInt32) (key : Traversal) (i : Nat) : LocalAlias :=
  match key.endStep?.bind fun s => s.labels.head? with
  | some label => .given label
  | none => .generated .groupKey "" path (UInt32.ofNat i)

theorem keyAlias_under (scope : Position) (key : Traversal) (i : Nat) :
    keyAlias (.under build config name path scope) key i =
      (localKeyAlias path key i).under scope := by
  unfold keyAlias localKeyAlias
  cases key.endStep?.bind fun s => s.labels.head? <;> rfl

end GroupStep

/-! ### Modulated steps -/

namespace ModulatedStep

/-- **The operator of a step is one**, up to the scope. -/
theorem uniform_terminal (hbuild : build.EachUniform) (m : ModulatedStep) (es : List LocalExpr) :
    Uniform LocalOperator.under fun scope =>
      m.terminal (.under build config name path scope) (es.map (LocalExpr.under scope)) := by
  have hhead : ∀ scope, (es.map (LocalExpr.under scope)).headD "" =
      (es.headD (.text "")).under scope := by
    intro scope
    cases es <;> rfl
  cases m with
  | select s =>
    let item : LocalExpr → String × Nat → LocalExpr × Option LocalAlias := fun e x =>
      (e, if s.keys.length = 1 then none
        else some (.generated .projectedTag x.1 path (UInt32.ofNat x.2)))
    refine .of_ok (.project (es.zipWith item s.keys.zipIdx)) fun scope => ?_
    rw [terminal, Traced.result_pure, LocalOperator.under, List.map_zipWith, List.zipWith_map_left]
    refine congrArg _ (congrArg _ (congrArg (List.zipWith · es s.keys.zipIdx) ?_))
    funext e x
    by_cases hsingle : s.keys.length = 1
    · simp only [item, hsingle, if_true, Option.map_none]
    · simp only [item, hsingle, if_false, Option.map_some]
      rfl
  | dedup s => exact .of_ok (.dedup es) fun _ => rfl
  | sample s =>
    simp only [terminal, hhead]
    cases SampleAmount.ofNumber? s.amount with
    | none => exact Context.uniform_fail _
    | some amount =>
      refine .of_ok (.sample amount (s.seed.getD config.defaultSampleSeed) (es.headD (.text "")))
        fun scope => ?_
      rw [LocalOperator.under]
      rfl
  | order s =>
    refine .of_ok (.order (es.zipWith (fun e k => (e, k.order)) s.sortKeys)) fun scope => ?_
    rw [terminal, Traced.result_pure, LocalOperator.under, List.map_zipWith, List.zipWith_map_left]
  | group s =>
    have hvalues : Uniform
        (fun scope (vs : List LocalAggregate) => vs.map (LocalAggregate.under scope)) fun scope =>
        Traced.traverse (fun x => GroupStep.aggregate (.under build config name path scope) x.1
          ((Context.under build config name path scope).column .groupValue "" x.2))
          s.valueTraversals.zipIdx :=
      .traverse fun x _ => GroupStep.uniform_aggregate x.1
        (.generated .groupValue "" path (UInt32.ofNat x.2))
    refine hvalues.bind fun vs => ?_
    refine .of_ok (.group (es.zipWith (fun e x => (e, GroupStep.localKeyAlias path x.1 x.2))
      s.keyTraversals.zipIdx) vs) fun scope => ?_
    rw [Traced.result_pure, LocalOperator.under, List.map_zipWith, List.zipWith_map_left]
    simp only [GroupStep.keyAlias_under]
  | wherePredicate s =>
    simp only [terminal, hhead, List.length_map]
    by_cases hshort : es.length < s.selectKeys.length + 1
    · simp only [hshort, if_true]
      exact Context.uniform_fail _
    · simp only [hshort, if_false]
      obtain ⟨pieces, hpieces⟩ :=
        s.predicate.inPieces_flatten_bind (es.headD (.text "")) es.tail
      refine .of_ok (.select pieces) fun scope => ?_
      rw [LocalOperator.under, ← hpieces, ← List.map_tail]
      rfl
  | whereTraversal t => exact t.uniform_filterOperator hbuild _ _
  | not t => exact t.uniform_filterOperator hbuild _ _

/-- **A rule has one outcome**, up to the scope. -/
theorem uniform_lowerIn (hbuild : build.EachUniform) (m : ModulatedStep) :
    Uniform LocalOperator.eachUnder fun scope => m.lowerIn (.under build config name path scope) := by
  simp only [lowerIn_eq]
  unfold lowerParts
  cases m.fault? with
  | some fault => exact Context.uniform_fail fault
  | none =>
    have hslots : Uniform
        (fun scope (rs : List _) => rs.map (Context.placeResolved scope)) fun scope =>
        Traced.traverse (Context.under build config name path scope).fill (m.slots config.policy) :=
      .traverse fun s _ => Context.uniform_fill hbuild s
    refine hslots.bind fun rs => ?_
    have hexpressions : ∀ scope, (rs.map (Context.placeResolved scope)).map Resolved.expression =
        (rs.map Prod.snd).map (LocalExpr.under scope) := by
      intro scope
      rw [List.map_map, List.map_map]
      rfl
    simp only [hexpressions]
    refine (uniform_terminal hbuild m (rs.map Prod.snd)).bind fun o => ?_
    refine .of_ok (rs.filterMap Prod.fst ++ [o]) fun scope => ?_
    rw [Traced.result_pure, Resolved.operators, List.filterMap_map, LocalOperator.eachUnder_eq,
      List.map_append, List.map_filterMap]
    rfl

end ModulatedStep

/-! ### Steps -/

/-- Only the name of a reduced value shows the scope. -/
theorem ElementaryStep.uniform_lower (s : ElementaryStep) :
    Uniform LocalOperator.eachUnder fun scope =>
      (StepKind.elementary s).lowerIn (.under build config name path scope) := by
  simp only [StepKind.lowerIn, s.lower_eq]
  cases s.fault? with
  | some fault => exact Context.uniform_fail fault
  | none =>
    have single : ∀ (o : LocalOperator) {os : Position → List Operator},
        (∀ scope, os scope = [o.under scope]) →
        Uniform LocalOperator.eachUnder fun scope => (Pure.pure (os scope) : Lowering _) :=
      fun o _ h => .of_ok [o] fun scope => congrArg _ (h scope)
    have test : ∀ e, Uniform LocalOperator.eachUnder fun _ =>
        (Pure.pure [.select e] : Lowering (List Operator)) :=
      fun e => single (.select [.text e]) fun scope => by
        rw [LocalOperator.under, LocalExpr.joinUnder_text]
    cases s with
    | source element ids => exact single (.source element ids) fun _ => rfl
    | expand direction element labels =>
      exact single (.expand direction element labels) fun _ => rfl
    | endpoint which => exact single (.endpoint which) fun _ => rfl
    | has t => exact test _
    | hasLabel labels =>
      cases labels with
      | nil => exact .of_ok [] fun _ => rfl
      | cons label labels => exact test _
    | is p => exact test _
    | values | id | label => exact single (.project [(.text _, none)]) fun _ => rfl
    | identity => exact .of_ok [] fun _ => rfl
    | limit count => exact single (.limit 0 count) fun _ => rfl
    | range lower upper => exact single (.limit lower upper) fun _ => rfl
    | reduce r =>
      exact single (.group [] [⟨.ofReducer r, none, .generated .groupValue "" path 0⟩])
        fun _ => rfl

theorem StepKind.uniform_lowerIn (hbuild : build.EachUniform) (k : StepKind) :
    Uniform LocalOperator.eachUnder fun scope => k.lowerIn (.under build config name path scope) := by
  cases k with
  | elementary s => exact s.uniform_lower
  | modulated m => exact m.uniform_lowerIn hbuild

theorem Step.uniform_lower (hbuild : build.EachUniform) (s : Step) :
    Uniform LocalOperator.eachUnder fun scope => s.lower build config (scope.extend path) := by
  unfold lower
  have hkind : Uniform LocalOperator.eachUnder fun scope =>
      s.kind.lowerIn (.under build config s.name path scope) := s.kind.uniform_lowerIn hbuild
  refine hkind.bind fun os => (Uniform.emit _).bind fun _ => ?_
  let binding : List LocalOperator := (s.labels.take 1).map fun label => .bind (.given label)
  have hbinding : ∀ scope, s.binding = LocalOperator.eachUnder scope binding := by
    intro scope
    unfold Step.binding
    cases hlabels : s.labels with
    | nil => simp [binding, hlabels, LocalOperator.eachUnder]
    | cons label labels =>
      simp [binding, hlabels, LocalOperator.eachUnder, LocalOperator.under, LocalAlias.under]
  refine .of_ok (os ++ binding) fun scope => ?_
  simp [hbinding scope, LocalOperator.eachUnder_eq]

end Rules

/-! ## Traversals -/

namespace Builder

/-- Lowering traversals has one outcome for each, if lowering their subqueries has. -/
theorem uniform_ofSteps {build : Builder} (hbuild : build.EachUniform) (config : Config) :
    (ofSteps build config).EachUniform := by
  intro t path
  have hsteps : Uniform (fun scope (parts : List (List LocalOperator)) =>
      parts.map (LocalOperator.eachUnder scope)) fun scope => Traced.traverse
        (fun x => Step.lower build config x.1 ((scope.extend path).child x.2)) t.steps.zipIdx := by
    refine .traverse fun x _ => ?_
    simp only [Position.extend_child]
    exact Step.uniform_lower hbuild x.1
  unfold ofSteps
  refine hsteps.bind fun parts => ?_
  refine .of_ok ⟨parts.flatten⟩ fun scope => ?_
  simp only [Traced.result_pure, LocalPlan.under, LocalOperator.eachUnder_eq, List.map_flatten]

theorem uniform_ofDepth (config : Config) (depth : Nat) : (ofDepth config depth).EachUniform := by
  induction depth with
  | zero => exact uniform_ofSteps (fun _ _ => .of_ok ⟨[]⟩ fun _ => rfl) config
  | succ depth ih => exact uniform_ofSteps ih config

end Builder

/-- **A traversal is lowered to one plan, or fails in one way, under every scope**: what a scope adds
is the beginning of the positions in generated names, in references to them and in a failure. The
subqueries of its steps are lowered as they would be by themselves, so this holds for them too. -/
theorem Traversal.build_under (t : Traversal) (policy : ModulatorPolicy) (seed : UInt64) :
    ((∃ plan : LocalPlan, ∀ scope,
        (t.build ⟨policy, seed, false⟩ scope).result = .ok (plan.under scope)) ∨
      ∃ e : LocalError, ∀ scope,
        (t.build ⟨policy, seed, false⟩ scope).result = .error (e.under scope)) ∧
    ∀ scope, t.build ⟨policy, seed, false⟩ scope =
      Builder.ofSteps (fun t scope => t.build ⟨policy, seed, false⟩ scope) ⟨policy, seed, false⟩ t
        scope := by
  refine ⟨?_, t.buildInOrder_eq _⟩
  have huniform := Builder.uniform_ofDepth ⟨policy, seed, false⟩ t.depth t []
  simp only [Position.extend_nil] at huniform
  exact huniform

open Traversal in
/-- A sort key that needs a subquery, in a whole query and in a query inside another. -/
example :
    let degree := (identity.outgoing []).count
    let t := identity.modulated (.order ⟨[⟨degree, .ascending⟩]⟩)
    let names (scope : Position) := (t.build .standard scope).result.map fun plan =>
      plan.operators.flatMap fun o =>
        match o with
        | .order keys => keys.map SortKey.expression
        | o => o.boundAliases.map Alias.name
    names .root = .ok ["~expr_0_0", "@~expr_0_0"] ∧
      names ((Position.root.child 7).child 2) = .ok ["~expr_7_2_0_0", "@~expr_7_2_0_0"] := by
  constructor <;> cbv

end TraversalPlan

import TraversalPlan.Graph
import TraversalPlan.Predicate.Basic

/-!
# Traversals

A traversal is a list of steps. A step is elementary, or it is modulated: then it carries
sub-traversals that say by what it selects, sorts, groups or filters.

* `Traversal`, `Step`, `ElementaryStep`, `ModulatedStep`: the trees.
* `Step.name`: the spelling of a step in the query language.
* `Traversal.rootedAt`: the traversal from a tagged record instead of the current one.
* `Traversal.depth`: how deep sub-traversals are nested.
-/

namespace TraversalPlan

/-! ## Elementary steps -/

/-- The test of a `has` step on the current element. -/
inductive HasTest where
  /-- The property exists. -/
  | key (key : String)
  | keyValue (key : String) (value : Value)
  | keyPredicate (key : String) (p : Predicate)
  /-- The element has the label and the property the value. -/
  | labelKeyValue (label key : String) (value : Value)
deriving Inhabited, Repr

/-- How a stream of records is reduced to one value. -/
inductive Reducer where
  | count
  | fold
  | sum
  | mean
  | min
  | max
deriving DecidableEq, Repr

/-- A step without sub-traversals. -/
inductive ElementaryStep where
  /-- The elements of the graph, or those with one of the ids. -/
  | source (element : ElementKind) (ids : List Value)
  /-- Neighbours or incident edges along edges with one of the labels, or any label if none. -/
  | expand (direction : Direction) (element : ElementKind) (labels : List String)
  | endpoint (which : Endpoint)
  | has (test : HasTest)
  | hasLabel (labels : List String)
  | is (p : Predicate)
  | values (key : String)
  | id
  | label
  | identity
  | limit (count : UInt64)
  /-- The records from `lower` on and before `upper`. -/
  | range (lower upper : UInt64)
  | reduce (reducer : Reducer)
deriving Inhabited, Repr

/-! ## Steps and traversals -/

mutual

/-- Steps in evaluation order. -/
structure Traversal where
  steps : List Step

/-- A step with the labels that name its result. -/
structure Step where
  kind : StepKind
  labels : List String

inductive StepKind where
  | elementary (step : ElementaryStep)
  | modulated (step : ModulatedStep)

/-- A step with sub-traversals. -/
inductive ModulatedStep where
  | select (step : SelectStep)
  | dedup (step : DedupStep)
  | sample (step : SampleStep)
  | order (step : OrderStep)
  | group (step : GroupStep)
  | wherePredicate (step : WherePredicateStep)
  /-- Keeps the records for which the traversal yields something. -/
  | whereTraversal (t : Traversal)
  /-- Keeps the records for which the traversal yields nothing. -/
  | not (t : Traversal)

/-- Projects tagged records; the modulators apply to the keys in turn, over and over. -/
structure SelectStep where
  keys : List String
  bys : List Traversal

/-- Drops records that agree under every tag, or as a whole if there are no tags. -/
structure DedupStep where
  keys : List String
  modulator : Option Traversal

/-- Draws records: a count of them, or a fraction below one. -/
structure SampleStep where
  amount : Binary64
  seed : Option UInt64
  /-- The weight of a record. -/
  modulator : Option Traversal

/-- A sort key with its direction. -/
structure Comparator where
  key : Traversal
  order : SortOrder

structure OrderStep where
  comparators : List Comparator

/-- Groups records by keys and reduces each group to values. -/
structure GroupStep where
  keys : List Traversal
  values : List Traversal
  /-- Groups are counted unless values are given. -/
  count : Bool

/-- Compares a start record with the records of the select keys, one for each comparison of the
predicate. The modulators apply to these records in order, the start record first. -/
structure WherePredicateStep where
  startKey : Option String
  predicate : Predicate
  selectKeys : List String
  bys : List Traversal

end

/-! ## Names -/

def Reducer.name : Reducer → String
  | count => "count"
  | fold => "fold"
  | sum => "sum"
  | mean => "mean"
  | min => "min"
  | max => "max"

def ElementaryStep.name : ElementaryStep → String
  | source .vertex _ => "V"
  | source .edge _ => "E"
  | expand .outgoing .vertex _ => "out"
  | expand .incoming .vertex _ => "in"
  | expand .both .vertex _ => "both"
  | expand .outgoing .edge _ => "outE"
  | expand .incoming .edge _ => "inE"
  | expand .both .edge _ => "bothE"
  | endpoint .source => "outV"
  | endpoint .target => "inV"
  | endpoint .both => "bothV"
  | endpoint .other => "otherV"
  | has _ => "has"
  | hasLabel _ => "hasLabel"
  | is _ => "is"
  | values _ => "values"
  | id => "id"
  | label => "label"
  | identity => "identity"
  | limit _ => "limit"
  | range _ _ => "range"
  | reduce r => r.name

def ModulatedStep.name : ModulatedStep → String
  | select _ => "select"
  | dedup _ => "dedup"
  | sample _ => "sample"
  | order _ => "order"
  | group s => if s.count then "groupCount" else "group"
  | wherePredicate _ => "where"
  | whereTraversal _ => "where"
  | not _ => "not"

def StepKind.name : StepKind → String
  | elementary s => s.name
  | modulated s => s.name

/-- The step does nothing. -/
def StepKind.isIdentity : StepKind → Bool
  | elementary .identity => true
  | _ => false

/-- The spelling of the step in the query language. -/
def Step.name (s : Step) : String := s.kind.name

/-- A step without labels. -/
def Step.ofKind (kind : StepKind) : Step := ⟨kind, []⟩

instance : Inhabited Traversal := ⟨⟨[]⟩⟩

instance : Inhabited Step := ⟨⟨.elementary .identity, []⟩⟩

/-! ## Operations -/

namespace Traversal

/-- The traversal of no steps, which stays at the current record. -/
def identity : Traversal := ⟨[]⟩

/-- The traversal has no steps but identities. -/
def isIdentity (t : Traversal) : Bool := t.steps.all fun s => s.kind.isIdentity

def endStep? (t : Traversal) : Option Step := t.steps.getLast?

/-- A `select` of one tag without modulators. -/
def selectTag (tag : String) : Step := .ofKind (.modulated (.select ⟨[tag], []⟩))

/-- The traversal from the record of a tag. The empty tag is the current record. -/
def rootedAt (t : Traversal) (tag : String) : Traversal :=
  if tag = "" then t else ⟨selectTag tag :: t.steps⟩

end Traversal

/-! ## Nesting depth -/

mutual

/-- The largest number of sub-traversals inside one another. -/
def Traversal.depth : Traversal → Nat
  | ⟨steps⟩ => stepsDepth steps

/-- The largest depth of several steps. -/
def stepsDepth : List Step → Nat
  | [] => 0
  | s :: rest => max (Step.depth s) (stepsDepth rest)

/-- Zero for a step without sub-traversals, otherwise one more than the deepest of them. -/
def Step.depth : Step → Nat
  | ⟨.elementary _, _⟩ => 0
  | ⟨.modulated m, _⟩ => ModulatedStep.depth m

def ModulatedStep.depth : ModulatedStep → Nat
  | .select ⟨_, bys⟩ => nestedDepth bys
  | .dedup ⟨_, none⟩ => 0
  | .dedup ⟨_, some t⟩ => Traversal.depth t + 1
  | .sample ⟨_, _, none⟩ => 0
  | .sample ⟨_, _, some t⟩ => Traversal.depth t + 1
  | .order ⟨comparators⟩ => comparatorsDepth comparators
  | .group ⟨keys, values, _⟩ => max (nestedDepth keys) (nestedDepth values)
  | .wherePredicate ⟨_, _, _, bys⟩ => nestedDepth bys
  | .whereTraversal t => Traversal.depth t + 1
  | .not t => Traversal.depth t + 1

/-- One more than the deepest of several sub-traversals, or zero if there are none. -/
def nestedDepth : List Traversal → Nat
  | [] => 0
  | t :: rest => max (Traversal.depth t + 1) (nestedDepth rest)

def comparatorsDepth : List Comparator → Nat
  | [] => 0
  | ⟨t, _⟩ :: rest => max (Traversal.depth t + 1) (comparatorsDepth rest)

end

end TraversalPlan

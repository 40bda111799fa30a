import TraversalPlan.Predicate.Document
import TraversalPlan.Traversal.Basic

/-!
# Traversals in documents

A traversal is a record of its steps, a step a record of its kind and labels, and a kind its name
over what it carries. A kind that carries nothing is its name alone.

* `Traversal.toJson`, `Step.toJson`, `StepKind.toJson`: written out, with all defaults but labels.
* `Traversal.ofDocument?`, `Step.ofDocument?`, `StepKind.ofDocument?`: read with a budget of open
  brackets.
-/

namespace TraversalPlan

/-! ## Elementary steps -/

namespace HasTest

def toJson : HasTest → Json
  | key k => .variant "key" (.str k)
  | keyValue k v => .variant "key_value" (.arr [.str k, v.toJson])
  | keyPredicate k p => .variant "key_predicate" (.arr [.str k, p.toJson])
  | labelKeyValue l k v => .variant "label_key_value" (.arr [.str l, .str k, v.toJson])

def ofDocument? : Nat → Document → Option HasTest
  | budget + 1, .object [(raw, payload)] => do
    match ← Document.textOf? raw, budget, payload with
    | "key", _, d => d.toText?.map key
    | "key_value", budget + 1, .array [k, v] =>
      return keyValue (← k.toText?) (← Value.ofDocument? budget v)
    | "key_predicate", budget + 1, .array [k, p] =>
      return keyPredicate (← k.toText?) (← Predicate.ofDocument? budget p)
    | "label_key_value", budget + 1, .array [l, k, v] =>
      return labelKeyValue (← l.toText?) (← k.toText?) (← Value.ofDocument? budget v)
    | _, _, _ => none
  | _, _ => none

end HasTest

namespace ElementaryStep

/-- The name of a step in documents. -/
def keyword : ElementaryStep → String
  | source .vertex _ => "v"
  | source .edge _ => "e"
  | expand .outgoing .vertex _ => "out"
  | expand .incoming .vertex _ => "in"
  | expand .both .vertex _ => "both"
  | expand .outgoing .edge _ => "out_e"
  | expand .incoming .edge _ => "in_e"
  | expand .both .edge _ => "both_e"
  | endpoint .source => "out_v"
  | endpoint .target => "in_v"
  | endpoint .both => "both_v"
  | endpoint .other => "other_v"
  | has _ => "has"
  | hasLabel _ => "has_label"
  | is _ => "is"
  | values _ => "values"
  | id => "id"
  | label => "label"
  | identity => "identity"
  | limit _ => "limit"
  | range _ _ => "range"
  | reduce r => r.name

/-- What the step carries, if anything. -/
def payload? : ElementaryStep → Option Json
  | source _ ids => some (.ofList Value.toJson ids)
  | expand _ _ labels => some (.ofList .str labels)
  | has test => some test.toJson
  | hasLabel labels => some (.ofList .str labels)
  | is p => some p.toJson
  | values key => some (.str key)
  | limit count => some (.ofNat count.toNat)
  | range lower upper => some (.arr [.ofNat lower.toNat, .ofNat upper.toNat])
  | endpoint _ => none
  | id => none
  | label => none
  | identity => none
  | reduce _ => none

def toJson (s : ElementaryStep) : Json :=
  match s.payload? with
  | some payload => .variant s.keyword payload
  | none => .str s.keyword

/-- The steps that carry nothing. -/
def plain : List ElementaryStep :=
  [endpoint .source, endpoint .target, endpoint .both, endpoint .other, id, label, identity,
    reduce .count, reduce .fold, reduce .sum, reduce .mean, reduce .min, reduce .max]

/-- A step that carries nothing, by name. -/
def ofKeyword? (name : String) : Option ElementaryStep := plain.find? fun s => s.keyword = name

/-- A step by its name and what it carries. -/
def ofVariant? (budget : Nat) (name : String) (payload : Document) : Option ElementaryStep :=
  match name with
  | "v" => (Value.listOfDocument? budget payload).map (source .vertex)
  | "e" => (Value.listOfDocument? budget payload).map (source .edge)
  | "out" => (payload.texts? budget).map (expand .outgoing .vertex)
  | "in" => (payload.texts? budget).map (expand .incoming .vertex)
  | "both" => (payload.texts? budget).map (expand .both .vertex)
  | "out_e" => (payload.texts? budget).map (expand .outgoing .edge)
  | "in_e" => (payload.texts? budget).map (expand .incoming .edge)
  | "both_e" => (payload.texts? budget).map (expand .both .edge)
  | "has" => (HasTest.ofDocument? budget payload).map has
  | "has_label" => (payload.texts? budget).map hasLabel
  | "is" => (Predicate.ofDocument? budget payload).map is
  | "values" => payload.toText?.map values
  | "limit" => payload.toUInt64?.map limit
  | "range" =>
    if budget = 0 then none
    else (payload.pairOf? Document.toUInt64? Document.toUInt64?).map fun p => range p.1 p.2
  | _ => payload.toNull?.bind fun _ => ofKeyword? name

end ElementaryStep

namespace SortOrder

def all : List SortOrder := [ascending, descending, shuffle]

/-- The name of an order in the documents of traversals. -/
def keyword : SortOrder → String
  | ascending => "asc"
  | descending => "desc"
  | shuffle => "shuffle"

end SortOrder

/-! ## Writing -/

mutual

def Traversal.toJson : Traversal → Json
  | ⟨steps⟩ => .obj [("steps", .arr (stepsToJson steps))]

def stepsToJson : List Step → List Json
  | [] => []
  | s :: rest => Step.toJson s :: stepsToJson rest

def Step.toJson : Step → Json
  | ⟨kind, []⟩ => .obj [("kind", StepKind.toJson kind)]
  | ⟨kind, labels⟩ => .obj [("kind", StepKind.toJson kind), ("labels", .ofList .str labels)]

def StepKind.toJson : StepKind → Json
  | .elementary s => s.toJson
  | .modulated m => ModulatedStep.toJson m

def ModulatedStep.toJson : ModulatedStep → Json
  | .select ⟨keys, bys⟩ =>
    .variant "select" (.obj [("keys", .ofList .str keys), ("bys", .arr (traversalsToJson bys))])
  | .dedup ⟨keys, modulator⟩ =>
    .variant "dedup" (.obj [("keys", .ofList .str keys), ("by", modulatorToJson modulator)])
  | .sample ⟨amount, seed, modulator⟩ =>
    .variant "sample" (.obj [("amount", .ofFloat amount),
      ("seed", .ofOption (fun n => .ofNat n.toNat) seed), ("by", modulatorToJson modulator)])
  | .order ⟨comparators⟩ =>
    .variant "order" (.obj [("comparators", .arr (comparatorsToJson comparators))])
  | .group ⟨keys, values, count⟩ =>
    .variant "group" (.obj [("keys", .arr (traversalsToJson keys)),
      ("values", .arr (traversalsToJson values)), ("count", .bool count)])
  | .wherePredicate ⟨startKey, predicate, selectKeys, bys⟩ =>
    .variant "where_predicate" (.obj [("start_key", .ofOption .str startKey),
      ("predicate", predicate.toJson), ("select_keys", .ofList .str selectKeys),
      ("bys", .arr (traversalsToJson bys))])
  | .whereTraversal t => .variant "where_traversal" (Traversal.toJson t)
  | .not t => .variant "not" (Traversal.toJson t)

def modulatorToJson : Option Traversal → Json
  | none => .null
  | some t => Traversal.toJson t

def traversalsToJson : List Traversal → List Json
  | [] => []
  | t :: rest => Traversal.toJson t :: traversalsToJson rest

def comparatorsToJson : List Comparator → List Json
  | [] => []
  | c :: rest => Comparator.toJson c :: comparatorsToJson rest

def Comparator.toJson : Comparator → Json
  | ⟨key, order⟩ => .obj [("by", Traversal.toJson key), ("order", .str order.keyword)]

end

/-! ## Reading -/

mutual

def Traversal.ofDocument? : Nat → Document → Option Traversal
  | 0, _ => none
  | budget + 1, d => do
    match ← d.record? ["steps"] with
    | [steps] => return ⟨← Document.orDefault? [] (stepsOf? budget) steps⟩
    | _ => none

def stepsOf? : Nat → Document → Option (List Step)
  | 0, _ => none
  | budget + 1, d => d.listOf? (Step.ofDocument? budget)

def Step.ofDocument? : Nat → Document → Option Step
  | 0, _ => none
  | budget + 1, d => do
    match ← d.record? ["kind", "labels"] with
    | [some kind, labels] =>
      let kind ← StepKind.ofDocument? budget kind
      let labels ← Document.orDefault? [] (Document.texts? budget) labels
      return ⟨kind, labels⟩
    | _ => none

def StepKind.ofDocument? : Nat → Document → Option StepKind
  | _, .string raw => do
    let name ← Document.textOf? raw
    let s ← ElementaryStep.ofKeyword? name
    return .elementary s
  | budget + 1, .object [(raw, d)] => do
    match ← Document.textOf? raw with
    | "select" => return .modulated (.select (← selectOf? budget d))
    | "dedup" => return .modulated (.dedup (← dedupOf? budget d))
    | "sample" => return .modulated (.sample (← sampleOf? budget d))
    | "order" => return .modulated (.order (← orderOf? budget d))
    | "group" => return .modulated (.group (← groupOf? budget d))
    | "where_predicate" => return .modulated (.wherePredicate (← wherePredicateOf? budget d))
    | "where_traversal" => return .modulated (.whereTraversal (← Traversal.ofDocument? budget d))
    | "not" => return .modulated (.not (← Traversal.ofDocument? budget d))
    | name => return .elementary (← ElementaryStep.ofVariant? budget name d)
  | _, _ => none

def traversalsOf? : Nat → Document → Option (List Traversal)
  | 0, _ => none
  | budget + 1, d => d.listOf? (Traversal.ofDocument? budget)

def selectOf? : Nat → Document → Option SelectStep
  | 0, _ => none
  | budget + 1, d => do
    match ← d.record? ["keys", "bys"] with
    | [some keys, bys] =>
      let keys ← keys.texts? budget
      let bys ← Document.orDefault? [] (traversalsOf? budget) bys
      return ⟨keys, bys⟩
    | _ => none

def dedupOf? : Nat → Document → Option DedupStep
  | 0, _ => none
  | budget + 1, d => do
    match ← d.record? ["keys", "by"] with
    | [keys, modulator] =>
      let keys ← Document.orDefault? [] (Document.texts? budget) keys
      let modulator ←
        Document.orDefault? none (Document.optionOf? (Traversal.ofDocument? budget)) modulator
      return ⟨keys, modulator⟩
    | _ => none

def sampleOf? : Nat → Document → Option SampleStep
  | 0, _ => none
  | budget + 1, d => do
    match ← d.record? ["amount", "seed", "by"] with
    | [some amount, seed, modulator] =>
      let amount ← amount.toFloat?
      let seed ← Document.orDefault? none (Document.optionOf? Document.toUInt64?) seed
      let modulator ←
        Document.orDefault? none (Document.optionOf? (Traversal.ofDocument? budget)) modulator
      return ⟨amount, seed, modulator⟩
    | _ => none

def comparatorOf? : Nat → Document → Option Comparator
  | 0, _ => none
  | budget + 1, d => do
    match ← d.record? ["by", "order"] with
    | [key, order] =>
      let key ← Document.orDefault? .identity (Traversal.ofDocument? budget) key
      let order ←
        Document.orDefault? .ascending (Document.choice? SortOrder.all SortOrder.keyword budget) order
      return ⟨key, order⟩
    | _ => none

def comparatorsOf? : Nat → Document → Option (List Comparator)
  | 0, _ => none
  | budget + 1, d => d.listOf? (comparatorOf? budget)

def orderOf? : Nat → Document → Option OrderStep
  | 0, _ => none
  | budget + 1, d => do
    match ← d.record? ["comparators"] with
    | [comparators] => return ⟨← Document.orDefault? [] (comparatorsOf? budget) comparators⟩
    | _ => none

def groupOf? : Nat → Document → Option GroupStep
  | 0, _ => none
  | budget + 1, d => do
    match ← d.record? ["keys", "values", "count"] with
    | [keys, values, count] =>
      let keys ← Document.orDefault? [] (traversalsOf? budget) keys
      let values ← Document.orDefault? [] (traversalsOf? budget) values
      let count ← Document.orDefault? false Document.toBool? count
      return ⟨keys, values, count⟩
    | _ => none

def wherePredicateOf? : Nat → Document → Option WherePredicateStep
  | 0, _ => none
  | budget + 1, d => do
    match ← d.record? ["start_key", "predicate", "select_keys", "bys"] with
    | [startKey, some predicate, selectKeys, bys] =>
      let startKey ← Document.orDefault? none (Document.optionOf? Document.toText?) startKey
      let predicate ← Predicate.ofDocument? budget predicate
      let selectKeys ← Document.orDefault? [] (Document.texts? budget) selectKeys
      let bys ← Document.orDefault? [] (traversalsOf? budget) bys
      return ⟨startKey, predicate, selectKeys, bys⟩
    | _ => none

end

end TraversalPlan

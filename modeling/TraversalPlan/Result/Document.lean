import TraversalPlan.Result.Basic
import TraversalPlan.Value.Document

/-!
# Results and tag tables in documents

* `QueryResult.toJson`, `QueryResult.ofDocument?`: batches, read with a budget of open brackets.
* `TagTable.toJson`, `TagTable.ofDocument?`: an object whose keys are the tags in decimal.
-/

namespace TraversalPlan

/-- Reads an object as a map. Of several fields of one key the last counts, at the first one's
place. -/
def Document.mapOf? {κ ν : Type} [DecidableEq κ] (key : List Char → Option κ)
    (value : Document → Option ν) : Document → Option (OrderedMap κ ν)
  | .object fields => do
    let entries ← fields.mapM fun (k, v) => do return (← key k, ← value v)
    return .ofList entries
  | _ => none

/-! ## Elements -/

namespace GraphElement

def toJson : GraphElement → Json
  | vertex id => .variant "vertex" (.obj [("id", .int id.toInt)])
  | edge source target =>
    .variant "edge" (.obj [("src_id", .int source.toInt), ("dst_id", .int target.toInt)])
  | unset => .str "unset"

def ofDocument? : Nat → Document → Option GraphElement
  | _, .string raw => do if (← Document.textOf? raw) = "unset" then return unset else none
  | budget + 1, .object [(raw, d)] => do
    match ← Document.textOf? raw with
    | "vertex" =>
      if budget = 0 then none
      else match ← d.record? ["id"] with
        | [some id] => id.toInt64?.map vertex
        | _ => none
    | "edge" =>
      if budget = 0 then none
      else match ← d.record? ["src_id", "dst_id"] with
        | [some source, some target] => return edge (← source.toInt64?) (← target.toInt64?)
        | _ => none
    | "unset" => d.toNull?.map fun _ => unset
    | _ => none
  | _, _ => none

def listOf? : Nat → Document → Option (List GraphElement)
  | 0, _ => none
  | budget + 1, d => d.listOf? (ofDocument? budget)

end GraphElement

/-! ## Tag entries and pairs -/

def TagValue.toJson : TagValue → Json
  | element e => .variant "element" e.toJson
  | value v => .variant "value" v.toJson
  | properties m => .variant "properties" (.obj (m.entries.map fun (k, v) => (k, v.toJson)))

def TagValue.ofDocument? : Nat → Document → Option TagValue
  | budget + 1, .object [(raw, d)] => do
    match ← Document.textOf? raw, budget with
    | "element", budget => (GraphElement.ofDocument? budget d).map element
    | "value", budget => (Value.ofDocument? budget d).map value
    | "properties", budget + 1 =>
      (d.mapOf? Document.textOf? (Value.ofDocument? budget)).map properties
    | _, _ => none
  | _, _ => none

def TagEntry.toJson (e : TagEntry) : Json :=
  .obj [("tag", .ofNat e.tag.toNat), ("value", e.value.toJson)]

def TagEntry.ofDocument? : Nat → Document → Option TagEntry
  | 0, _ => none
  | budget + 1, d => do
    match ← d.record? ["tag", "value"] with
    | [some tag, some value] => return ⟨← tag.toUInt32?, ← TagValue.ofDocument? budget value⟩
    | _ => none

def TagEntry.listOf? : Nat → Document → Option (List TagEntry)
  | 0, _ => none
  | budget + 1, d => d.listOf? (ofDocument? budget)

def PairElement.toJson : PairElement → Json
  | element e => .variant "graph_element" e.toJson
  | value v => .variant "value" v.toJson
  | elements es => .variant "graph_element_list" (.ofList GraphElement.toJson es)
  | values vs => .variant "value_list" (.ofList Value.toJson vs)

def PairElement.ofDocument? : Nat → Document → Option PairElement
  | budget + 1, .object [(raw, d)] => do
    match ← Document.textOf? raw with
    | "graph_element" => (GraphElement.ofDocument? budget d).map element
    | "value" => (Value.ofDocument? budget d).map value
    | "graph_element_list" => (GraphElement.listOf? budget d).map elements
    | "value_list" => (Value.listOfDocument? budget d).map values
    | _ => none
  | _, _ => none

def PairEntry.toJson (p : PairEntry) : Json :=
  .obj [("first", p.first.toJson), ("second", p.second.toJson)]

def PairEntry.ofDocument? : Nat → Document → Option PairEntry
  | 0, _ => none
  | budget + 1, d => do
    match ← d.record? ["first", "second"] with
    | [some first, some second] =>
      return ⟨← PairElement.ofDocument? budget first, ← PairElement.ofDocument? budget second⟩
    | _ => none

/-! ## Batches -/

namespace QueryResult

def toJson : QueryResult → Json
  | paths ps => .variant "paths" (.ofList (Json.ofList GraphElement.toJson) ps)
  | elements es => .variant "elements" (.ofList GraphElement.toJson es)
  | tagEntries records => .variant "tag_entries" (.ofList (Json.ofList TagEntry.toJson) records)
  | pairs ps => .variant "map_result" (.ofList PairEntry.toJson ps)
  | value v => .variant "value" v.toJson
  | values vs => .variant "value_list" (.ofList Value.toJson vs)

def ofDocument? : Nat → Document → Option QueryResult
  | budget + 1, .object [(raw, d)] => do
    match ← Document.textOf? raw, budget with
    | "paths", budget + 1 => (d.listOf? (GraphElement.listOf? budget)).map paths
    | "elements", budget => (GraphElement.listOf? budget d).map elements
    | "tag_entries", budget + 1 => (d.listOf? (TagEntry.listOf? budget)).map tagEntries
    | "map_result", budget + 1 => (d.listOf? (PairEntry.ofDocument? budget)).map pairs
    | "value", budget => (Value.ofDocument? budget d).map value
    | "value_list", budget => (Value.listOfDocument? budget d).map values
    | _, _ => none
  | _, _ => none

end QueryResult

/-! ## Tag tables -/

namespace TagTable

def toJson (t : TagTable) : Json := .obj (t.entries.map fun (id, name) => (id.toNat.repr, .str name))

/-- A tag in decimal: digits that do not begin with a zero, or a lone zero. -/
def idOf? (raw : List Char) : Option UInt32 :=
  if raw.isEmpty || !raw.all Char.isDigit then none
  else if raw.head? = some '0' ∧ 1 < raw.length then none
  else
    let n := Nat.ofDigitChars 10 raw 0
    if n < UInt32.size then some (UInt32.ofNat n) else none

def ofDocument? : Nat → Document → Option TagTable
  | 0, _ => none
  | _ + 1, d => d.mapOf? idOf? Document.toText?

end TagTable
end TraversalPlan

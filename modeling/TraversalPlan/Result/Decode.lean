import TraversalPlan.Traced
import TraversalPlan.Json.Basic
import TraversalPlan.Report
import TraversalPlan.Result.Basic

/-!
# Decoding results

A batch becomes a list of JSON values. An element is the list of its ids, a pair an object of `key`
and `value`, and a record an object by tag names, or its bare value if it has one entry.

* `QueryResult.decode`: the values of a batch, or the first tag that has no name. Every element
  without content is logged when it is reached.
-/

namespace TraversalPlan

/-- A tag without a name. -/
inductive DecodeError where
  | unknownTag (id : UInt32)
deriving DecidableEq, Repr

def DecodeError.report : DecodeError → Report
  | unknownTag id => .decode ("unknown tag id " ++ id.toNat.repr)

/-- A computation of the decoding. -/
abbrev Decoding := Traced DecodeError

/-- The value of a literal; a number that is not finite is null. -/
def Value.decode : Value → Json
  | .null => .null
  | .bool b => .bool b
  | .int i => .int i.toInt
  | .float x => .ofFloat x
  | .string s => .str s
  | .list items => .arr (decodeItems items)
where
  decodeItems : List Value → List Json
    | [] => []
    | v :: vs => v.decode :: decodeItems vs

def GraphElement.decode : GraphElement → Decoding Json
  | vertex id => pure (.arr [.int id.toInt])
  | edge source target => pure (.arr [.int source.toInt, .int target.toInt])
  | unset => do
    Traced.emit [.unsetElement]
    return .arr []

/-- A list of elements. -/
def GraphElement.decodeAll (es : List GraphElement) : Decoding Json := do
  return .arr (← Traced.traverse GraphElement.decode es)

def TagValue.decode : TagValue → Decoding Json
  | element e => e.decode
  | value v => pure v.decode
  | properties m => pure (.sortedObject (m.entries.map fun (k, v) => (k, v.decode)))

def PairElement.decode : PairElement → Decoding Json
  | element e => e.decode
  | value v => pure v.decode
  | elements es => GraphElement.decodeAll es
  | values vs => pure (.arr (vs.map Value.decode))

def PairEntry.decode (p : PairEntry) : Decoding Json := do
  let key ← p.first.decode
  let value ← p.second.decode
  return .obj [("key", key), ("value", value)]

/-- The field of an entry. -/
def TagEntry.decode (tags : TagTable) (e : TagEntry) : Decoding (String × Json) :=
  match tags.get? e.tag with
  | none => .fail (.unknownTag e.tag)
  | some name => do return (name, ← e.value.decode)

/-- A record. Of several fields of one name the last remains. -/
def TagEntry.decodeRecord (tags : TagTable) (entries : List TagEntry) : Decoding Json := do
  match ← Traced.traverse (TagEntry.decode tags) entries with
  | [(_, only)] => return only
  | fields => return .sortedObject fields

/-- The values of a batch. -/
def QueryResult.decode (tags : TagTable) : QueryResult → Decoding (List Json)
  | paths ps => Traced.traverse GraphElement.decodeAll ps
  | elements es => Traced.traverse GraphElement.decode es
  | tagEntries records => Traced.traverse (TagEntry.decodeRecord tags) records
  | pairs ps => Traced.traverse PairEntry.decode ps
  | value v => pure [v.decode]
  | values vs => pure (vs.map Value.decode)

end TraversalPlan

import TraversalPlan.Plan.Basic

/-!
# The binary form of plans

The bytes in which an engine takes a plan.

* `Binary.ofNat`: a natural number in one byte up to 250, else a mark and two, four or eight bytes.
* `Binary.ofInt`: a signed number as the natural number of its distance from zero, odd below it.
* `Plan.encode`: a list is its length and its items, an alternative its number and its fields, and a
  literal its bare content.
-/

namespace TraversalPlan

namespace Binary

/-- The lowest bytes of a number, least significant first. -/
def littleEndian : Nat → Nat → List UInt8
  | 0, _ => []
  | width + 1, n => UInt8.ofNat (n % 256) :: littleEndian width (n / 256)

/-- A natural number below `2 ^ 64`. -/
def ofNat (n : Nat) : List UInt8 :=
  if n < 251 then [UInt8.ofNat n]
  else if n < UInt16.size then 251 :: littleEndian 2 n
  else if n < UInt32.size then 252 :: littleEndian 4 n
  else 253 :: littleEndian 8 n

/-- Signed numbers in the order 0, -1, 1, -2, 2 and so on. -/
def zigzag (i : Int) : Nat := if 0 ≤ i then 2 * i.toNat else 2 * (-i).toNat - 1

def ofInt (i : Int) : List UInt8 := ofNat (zigzag i)

def ofBool (b : Bool) : List UInt8 := [if b then 1 else 0]

def ofFloat (x : Binary64) : List UInt8 := littleEndian 8 x.bits.toNat

def ofBytes (bytes : List UInt8) : List UInt8 := ofNat bytes.length ++ bytes

def ofString (s : String) : List UInt8 := ofBytes s.toUTF8.data.toList

def ofOption {α : Type} (write : α → List UInt8) : Option α → List UInt8
  | none => [0]
  | some a => 1 :: write a

def ofList {α : Type} (write : α → List UInt8) (xs : List α) : List UInt8 :=
  ofNat xs.length ++ xs.flatMap write

end Binary

/-! ## Literals -/

mutual

/-- The content of a literal, without a mark of its kind. -/
def Value.encode : Value → List UInt8
  | .null => []
  | .bool b => Binary.ofBool b
  | .int i => Binary.ofInt i.toInt
  | .float x => Binary.ofFloat x
  | .string s => Binary.ofString s
  | .list items => Binary.ofNat items.length ++ Value.encodeItems items

def Value.encodeItems : List Value → List UInt8
  | [] => []
  | v :: vs => Value.encode v ++ Value.encodeItems vs

end

/-! ## Operators -/

def ElementKind.encode : ElementKind → List UInt8
  | vertex => Binary.ofNat 0
  | edge => Binary.ofNat 1

def Direction.encode : Direction → List UInt8
  | outgoing => Binary.ofNat 0
  | incoming => Binary.ofNat 1
  | both => Binary.ofNat 2

def Endpoint.encode : Endpoint → List UInt8
  | source => Binary.ofNat 0
  | target => Binary.ofNat 1
  | both => Binary.ofNat 2
  | other => Binary.ofNat 3

def JoinKind.encode : JoinKind → List UInt8
  | inner => Binary.ofNat 0
  | semi => Binary.ofNat 1
  | anti => Binary.ofNat 2

def SortOrder.encode : SortOrder → List UInt8
  | ascending => Binary.ofNat 0
  | descending => Binary.ofNat 1
  | shuffle => Binary.ofNat 2

def AggregateKind.encode : AggregateKind → List UInt8
  | count => Binary.ofNat 0
  | countDistinct => Binary.ofNat 1
  | sum => Binary.ofNat 2
  | avg => Binary.ofNat 3
  | min => Binary.ofNat 4
  | max => Binary.ofNat 5
  | toList => Binary.ofNat 6
  | toSet => Binary.ofNat 7

def Alias.encode (a : Alias) : List UInt8 := Binary.ofString a.name ++ Binary.ofBool a.userDefined

def ProjectItem.encode (i : ProjectItem) : List UInt8 :=
  Binary.ofString i.expression ++ Binary.ofOption Alias.encode i.column

def SortKey.encode (k : SortKey) : List UInt8 := Binary.ofString k.expression ++ k.order.encode

def GroupKey.encode (k : GroupKey) : List UInt8 := Binary.ofString k.expression ++ k.column.encode

def Aggregate.encode (a : Aggregate) : List UInt8 :=
  a.kind.encode ++ Binary.ofOption Binary.ofString a.source ++ a.column.encode

def SampleAmount.encode : SampleAmount → List UInt8
  | count n => Binary.ofNat 0 ++ Binary.ofNat n.toNat
  | ratio r => Binary.ofNat 1 ++ Binary.ofFloat r

namespace Operator

mutual

/-- The number of the operator and its fields in order. -/
def encode : Operator → List UInt8
  | source element ids => Binary.ofNat 0 ++ element.encode ++ Binary.ofList Value.encode ids
  | expand direction element labels =>
    Binary.ofNat 1 ++ direction.encode ++ element.encode ++ Binary.ofList Binary.ofString labels
  | endpoint which => Binary.ofNat 2 ++ which.encode
  | limit lower upper => Binary.ofNat 3 ++ Binary.ofNat lower.toNat ++ Binary.ofNat upper.toNat
  | bind a => Binary.ofNat 4 ++ a.encode
  | apply subplan join a =>
    Binary.ofNat 5 ++ (Binary.ofNat subplan.length ++ encodeAll subplan) ++ join.encode ++
      Binary.ofOption Alias.encode a
  | project items => Binary.ofNat 6 ++ Binary.ofList ProjectItem.encode items
  | dedup keys => Binary.ofNat 7 ++ Binary.ofList Binary.ofString keys
  | order keys => Binary.ofNat 8 ++ Binary.ofList SortKey.encode keys
  | group keys values =>
    Binary.ofNat 9 ++ Binary.ofList GroupKey.encode keys ++ Binary.ofList Aggregate.encode values
  | select predicate => Binary.ofNat 10 ++ Binary.ofString predicate
  | sample amount seed probability =>
    Binary.ofNat 11 ++ amount.encode ++ Binary.ofNat seed.toNat ++ Binary.ofString probability

def encodeAll : List Operator → List UInt8
  | [] => []
  | o :: os => encode o ++ encodeAll os

end

end Operator

/-- The bytes of a plan. -/
def Plan.encode (p : Plan) : List UInt8 :=
  Binary.ofNat p.operators.length ++ Operator.encodeAll p.operators

end TraversalPlan

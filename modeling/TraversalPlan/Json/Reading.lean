import TraversalPlan.Json.Number

/-!
# Reading documents

What the readers of the single types share.

* Leaves: `Document.toText?`, `Document.toBool?`, `Document.toUInt64?` and so on.
* `Document.record?`: the fields of a record, given by name or in order.
* `Document.variant?`: the alternative that a document names, with its payload.

A reader of a type that holds others takes a budget, the number of brackets that may still be open
inside each other; `Document.bracketLimit` is where a text starts. Fields that no reader asks for
use up none of it.
-/

namespace TraversalPlan.Document

/-- The most brackets that may be open at once. -/
def bracketLimit : Nat := 127

/-! ## Leaves -/

/-- A string with its escapes interpreted. -/
def textOf? (raw : List Char) : Option String := (Quoted.decode raw).map String.ofList

def toText? : Document → Option String
  | .string raw => textOf? raw
  | _ => none

def toBool? : Document → Option Bool
  | .bool b => some b
  | _ => none

def toNull? : Document → Option Unit
  | .null => some ()
  | _ => none

def toNumber? : Document → Option Number
  | .number literal => Number.ofLiteral? literal
  | _ => none

def toUInt64? (d : Document) : Option UInt64 :=
  match d.toNumber? with
  | some (.natural n) => some n
  | _ => none

def toUInt32? (d : Document) : Option UInt32 :=
  match d.toNumber? with
  | some (.natural n) => if n.toNat < UInt32.size then some n.toUInt32 else none
  | _ => none

def toInt64? (d : Document) : Option Int64 :=
  match d.toNumber? with
  | some (.natural n) => if n.toNat < 0x8000000000000000 then some n.toInt64 else none
  | some (.negative i) => some i
  | _ => none

/-- A floating-point number; integers are rounded to one. -/
def toFloat? (d : Document) : Option Binary64 :=
  match d.toNumber? with
  | some (.natural n) => some (Binary64.ofNat n.toNat)
  | some (.negative i) => some (Binary64.ofNat i.toInt.natAbs).neg
  | some (.float x) => some x
  | none => none

/-! ## Lists and options -/

/-- The items of an array, each read in the same way. -/
def listOf? {α : Type} (read : Document → Option α) : Document → Option (List α)
  | .array items => items.mapM read
  | _ => none

/-- A list of strings, with a budget of open brackets. -/
def texts? : Nat → Document → Option (List String)
  | 0, _ => none
  | _ + 1, d => d.listOf? toText?

/-- Null is none, anything else is read. -/
def optionOf? {α : Type} (read : Document → Option α) : Document → Option (Option α)
  | .null => some none
  | d => (read d).map some

/-- A tuple of two. -/
def pairOf? {α β : Type} (first : Document → Option α) (second : Document → Option β) :
    Document → Option (α × β)
  | .array [a, b] => do return (← first a, ← second b)
  | _ => none

/-! ## Records and variants -/

/-- The fields of an object with their names interpreted. -/
def named? (fields : List (List Char × Document)) : Option (List (String × Document)) :=
  fields.mapM fun f => (textOf? f.1).map fun name => (name, f.2)

/-- The known fields of a record, in the order of their names and none where one is missing. A record
is an object, in which unknown fields are ignored and a known one stands at most once, or an array of
its first fields. -/
def record? (names : List String) : Document → Option (List (Option Document))
  | .array items =>
    if items.length ≤ names.length then
      some (items.map some ++ List.replicate (names.length - items.length) none)
    else none
  | .object fields => do
    let fields ← named? fields
    names.mapM fun name =>
      match fields.filter fun f => f.1 = name with
      | [] => some none
      | [f] => some (some f.2)
      | _ => none
  | _ => none

/-- A field that has a default. -/
def orDefault? {α : Type} (default : α) (read : Document → Option α) :
    Option Document → Option α
  | none => some default
  | some d => read d

/-- The name of the alternative and its payload: a lone name, or an object of one field. -/
def variant? : Document → Option (String × Option Document)
  | .string raw => (textOf? raw).map fun name => (name, none)
  | .object [(raw, payload)] => (textOf? raw).map fun name => (name, some payload)
  | _ => none

/-- An alternative without payload: a lone name, or a name with null if a bracket is left. -/
def unitVariant? (budget : Nat) (d : Document) : Option String :=
  match d.variant?, budget with
  | some (name, none), _ => some name
  | some (name, some .null), _ + 1 => some name
  | _, _ => none

/-- One of several alternatives without payload, by name. -/
def choice? {α : Type} (all : List α) (name : α → String) (budget : Nat) (d : Document) : Option α :=
  (d.unitVariant? budget).bind fun s => all.find? fun a => name a = s

end TraversalPlan.Document

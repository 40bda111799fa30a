import TraversalPlan.Json.Basic
import TraversalPlan.Json.Reading

/-!
# Positions of steps

* `Position`: the path to a step. A top-level step has its index; a step of the subquery numbered `s`
  of the step at `P` has the path `P`, `s`, index.
* `Position.text`: the components with points between them.
* `StepRef`: a step by name and position, as it is named in messages.
-/

namespace TraversalPlan

/-- A path of indexes, outermost first. The empty path is the scope of a whole query. -/
structure Position where
  path : List UInt32
deriving DecidableEq, Repr, Inhabited

namespace Position

def root : Position := ⟨[]⟩

/-- One level further in. Indexes are kept modulo `2 ^ 32`. -/
def child (p : Position) (index : Nat) : Position := ⟨p.path ++ [UInt32.ofNat index]⟩

@[simp]
theorem path_root : root.path = [] := rfl

@[simp]
theorem path_child (p : Position) (index : Nat) :
    (p.child index).path = p.path ++ [UInt32.ofNat index] := rfl

/-- The index of the step inside its own traversal. -/
def index (p : Position) : Nat := (p.path.getLast?.map UInt32.toNat).getD 0

def isRoot (p : Position) : Bool := p.path.isEmpty

def text (p : Position) : String := ".".intercalate (p.path.map fun i => i.toNat.repr)

def toJson (p : Position) : Json :=
  .obj [("path", .ofList (fun i => Json.ofNat i.toNat) p.path)]

/-- Reads a position with a budget of open brackets. -/
def ofDocument? : Nat → Document → Option Position
  | _ + 2, d => do
    match ← d.record? ["path"] with
    | [some path] => (path.listOf? Document.toUInt32?).map Position.mk
    | _ => none
  | _, _ => none

end Position

/-- A step as messages name it. -/
structure StepRef where
  name : String
  position : Position
deriving DecidableEq, Repr

def StepRef.text (s : StepRef) : String := s.name ++ "@" ++ s.position.text

end TraversalPlan

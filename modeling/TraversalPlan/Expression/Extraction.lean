import TraversalPlan.Expression.Subject
import TraversalPlan.OrderedMap
import TraversalPlan.Traversal.Defaults

/-!
# Extraction of expressions

A sub-traversal is pure if it denotes a tagged record, one of its properties or a test on one,
without moving through the graph.

* `Cursor`: what the steps read so far denote; `Cursor.through?` follows further steps.
* `Extraction`: an expression for each tag, or none where a subquery is needed.
* `Traversal.extract`: the extraction of a traversal. A lone `select` or `dedup` has one entry for
  each tag, any other traversal a single one.
-/

namespace TraversalPlan

/-- What a pure chain of steps denotes. -/
inductive Cursor where
  | value (tag : String) (property : Option String)
  /-- The conjunction of tests, each with whether it is compound. -/
  | test (tag : String) (parts : List (String × Bool))
deriving DecidableEq, Repr

namespace Cursor

/-- The record of a tag. -/
def ofTag (tag : String) : Cursor := value tag none

/-- The current record. -/
def current : Cursor := ofTag ""

def tag : Cursor → String
  | value tag _ => tag
  | test tag _ => tag

def expr : Cursor → String
  | value tag property => Expr.subject tag property
  | test _ parts => Expr.conjoin parts

/-- Moves from a record to one of its properties. -/
def property? (key : String) : Cursor → Option Cursor
  | value tag none => some (value tag (some key))
  | _ => none

/-- Adds tests of the tagged record itself. -/
def filter? (parts : String → List (String × Bool)) : Cursor → Option Cursor
  | value tag none => some (test tag (parts tag))
  | value _ (some _) => none
  | test tag earlier => some (test tag (earlier ++ parts tag))

/-- Adds a test of the current value. -/
def is? (p : Predicate) : Cursor → Option Cursor
  | value tag property =>
    some (test tag [(p.flatten (Expr.subject tag property), p.isCompound)])
  | test _ _ => none

/-- Follows an elementary step. -/
def step? (c : Cursor) : ElementaryStep → Option Cursor
  | .identity => some c
  | .values key => c.property? key
  | .id => c.property? Expr.idProperty
  | .label => c.property? Expr.labelProperty
  | .is p => c.is? p
  | .has t => c.filter? fun tag => t.parts tag
  | .hasLabel [] => some c
  | .hasLabel labels => c.filter? fun tag => [Expr.labelTest tag labels]
  | _ => none

/-- Follows steps. A `select` of one tag starts anew at that tag. -/
def through? (c : Cursor) : List Step → Option Cursor
  | [] => some c
  | ⟨.elementary s, _⟩ :: rest => (c.step? s).bind fun c => through? c rest
  | ⟨.modulated (.select ⟨[key], []⟩), _⟩ :: rest => through? (ofTag key) rest
  | ⟨.modulated (.select ⟨[key], ⟨steps⟩ :: _⟩), _⟩ :: rest =>
    (through? (ofTag key) steps).bind fun c => through? c rest
  | _ => none

end Cursor

/-! ## Extraction -/

/-- The expression of each tag, or none where its value needs a subquery. -/
abbrev Extraction := OrderedMap String (Option String)

/-- The expression of the only entry, if there is only one and it has an expression. -/
def Extraction.single? (r : Extraction) : Option String :=
  match r.entries with
  | [(_, some e)] => some e
  | _ => none

/-- The expression of a modulator applied to a tagged record, if it is pure. -/
def Traversal.exprAt? (t : Traversal) (tag : String) : Option String :=
  ((Cursor.ofTag tag).through? t.steps).map Cursor.expr

/-- One entry for each key. -/
def SelectStep.extract (s : SelectStep) : Extraction :=
  OrderedMap.ofList (s.keys.mapIdx fun i key => (key, (s.modulatorFor i).exprAt? key))

/-- One entry for each tag. -/
def DedupStep.extract (s : DedupStep) : Extraction :=
  OrderedMap.ofList (s.tags.map fun tag => (tag, s.modulatorOrIdentity.exprAt? tag))

/-- The extraction of a chain of steps. -/
def extractSteps : List Step → Extraction
  | [⟨.modulated (.select s), _⟩] => s.extract
  | [⟨.modulated (.dedup s), _⟩] => s.extract
  | steps =>
    match Cursor.current.through? steps with
    | some c => .single c.tag (some c.expr)
    | none => .single "" none

def Traversal.extract (t : Traversal) : Extraction := extractSteps t.steps

end TraversalPlan

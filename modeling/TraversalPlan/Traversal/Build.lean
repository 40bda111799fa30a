import TraversalPlan.Traversal.Basic

/-!
# Building traversals

One function for each step of the query language, which appends that step.
-/

namespace TraversalPlan.Traversal

/-- Appends a step. -/
def step (t : Traversal) (s : Step) : Traversal := ⟨t.steps ++ [s]⟩

/-- Appends a step without labels. -/
def kind (t : Traversal) (k : StepKind) : Traversal := t.step (.ofKind k)

/-- Appends an elementary step without labels. -/
def elementary (t : Traversal) (s : ElementaryStep) : Traversal := t.kind (.elementary s)

/-- Appends a modulated step without labels. -/
def modulated (t : Traversal) (s : ModulatedStep) : Traversal := t.kind (.modulated s)

def vertices (t : Traversal) (ids : List Value) : Traversal := t.elementary (.source .vertex ids)

def outgoing (t : Traversal) (labels : List String) : Traversal :=
  t.elementary (.expand .outgoing .vertex labels)

def incoming (t : Traversal) (labels : List String) : Traversal :=
  t.elementary (.expand .incoming .vertex labels)

def both (t : Traversal) (labels : List String) : Traversal :=
  t.elementary (.expand .both .vertex labels)

def outgoingEdges (t : Traversal) (labels : List String) : Traversal :=
  t.elementary (.expand .outgoing .edge labels)

def values (t : Traversal) (key : String) : Traversal := t.elementary (.values key)

def id (t : Traversal) : Traversal := t.elementary .id

def label (t : Traversal) : Traversal := t.elementary .label

def has (t : Traversal) (key : String) (value : Value) : Traversal :=
  t.elementary (.has (.keyValue key value))

def hasWhere (t : Traversal) (key : String) (p : Predicate) : Traversal :=
  t.elementary (.has (.keyPredicate key p))

def hasLabel (t : Traversal) (labels : List String) : Traversal := t.elementary (.hasLabel labels)

def is (t : Traversal) (p : Predicate) : Traversal := t.elementary (.is p)

/-- Selects tags by modulators. -/
def selectBy (t : Traversal) (keys : List String) (bys : List Traversal) : Traversal :=
  t.modulated (.select ⟨keys, bys⟩)

def select (t : Traversal) (key : String) : Traversal := t.selectBy [key] []

def dedup (t : Traversal) : Traversal := t.modulated (.dedup ⟨[], none⟩)

def count (t : Traversal) : Traversal := t.elementary (.reduce .count)

def fold (t : Traversal) : Traversal := t.elementary (.reduce .fold)

def sum (t : Traversal) : Traversal := t.elementary (.reduce .sum)

def limit (t : Traversal) (n : UInt64) : Traversal := t.elementary (.limit n)

/-- Labels the last step, if there is one. -/
def labelled (t : Traversal) (label : String) : Traversal :=
  match t.steps.getLast? with
  | none => t
  | some last => ⟨t.steps.dropLast ++ [⟨last.kind, last.labels ++ [label]⟩]⟩

end TraversalPlan.Traversal

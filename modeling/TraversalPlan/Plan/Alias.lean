import TraversalPlan.Position

/-!
# Aliases

An alias names a column that later operators refer to. A generated name says where the column comes
from, so lowering the same traversal again gives the same names.

* `Alias.named`: an alias that the query gives.
* `Alias.allocate`: the generated alias for a category, a tag, a position and a number within the
  step at that position.
-/

namespace TraversalPlan

/-- The name of a column. -/
structure Alias where
  name : String
  /-- The query gave the name. -/
  userDefined : Bool
deriving DecidableEq, Repr, Inhabited

/-- What a generated column holds. -/
inductive Alias.Category where
  | subquery
  | groupKey
  | groupValue
  | projectedTag
  /-- The subquery behind a projected tag. -/
  | tagSubquery
deriving DecidableEq, Repr

namespace Alias

def named (name : String) : Alias := ⟨name, true⟩

/-- The expression that refers to the column. -/
def expr (a : Alias) : String := "@" ++ a.name

/-- How a generated name of the category begins. -/
def Category.stem : Category → List Char
  | subquery => ['e', 'x', 'p', 'r']
  | groupKey => ['k', 'e', 'y', 's']
  | groupValue => ['v', 'a', 'l', 'u', 'e', 's']
  | projectedTag => ['p', 'r', 'o', 'j', 'e', 'c', 't']
  | tagSubquery => ['a', 'p', 'p', 'l', 'y']

/-- A character of a tag between brackets: a closing bracket and a backslash follow a backslash. -/
def tagChar (c : Char) : List Char := if c = ']' ∨ c = '\\' then ['\\', c] else [c]

/-- A tag between brackets, nothing for the empty tag. -/
def tagChars (tag : List Char) : List Char :=
  if tag.isEmpty then [] else '[' :: tag.flatMap tagChar ++ [']']

/-- An underscore and a number. -/
def componentChars (i : UInt32) : List Char := '_' :: Nat.toDigits 10 i.toNat

/-- The characters of a generated name. -/
def allocateChars (category : Category) (tag : String) (position : Position) (sub : UInt32) :
    List Char :=
  '~' :: category.stem ++ tagChars tag.toList ++ (position.path ++ [sub]).flatMap componentChars

/-- The generated alias of a category for a tag, numbered within the step at a position. -/
def allocate (category : Category) (tag : String) (position : Position) (sub : UInt32) : Alias :=
  ⟨String.ofList (allocateChars category tag position sub), false⟩

def toJson (a : Alias) : Json := .obj [("name", .str a.name), ("user_defined", .bool a.userDefined)]

end Alias
end TraversalPlan

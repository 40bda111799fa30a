import TraversalPlan.Binary64.Text
import TraversalPlan.Numeral
import TraversalPlan.Json.Quoted

/-!
# JSON values and their text

* `Json`: what an answer is made of. Fields are kept in the order in which they are written.
* `Json.compact`: the text without blanks.
* `Json.pretty`: the text with one item or field a line, indented by two blanks.
-/

namespace TraversalPlan

/-- A JSON value. -/
inductive Json where
  | null
  | bool (b : Bool)
  | int (i : Int)
  | float (x : Binary64)
  | str (s : String)
  | arr (items : List Json)
  | obj (fields : List (String × Json))
deriving Inhabited

namespace Json

/-- A floating-point number, or null where there is no number to write. -/
def ofFloat (x : Binary64) : Json := if x.isFinite then .float x else .null

def ofNat (n : Nat) : Json := .int n

/-- The value, or null for none. -/
def ofOption {α : Type} (write : α → Json) : Option α → Json
  | none => .null
  | some a => write a

def ofList {α : Type} (write : α → Json) (xs : List α) : Json := .arr (xs.map write)

/-- A value under the name of its variant. -/
def variant (name : String) (payload : Json) : Json := .obj [(name, payload)]

/-! ## Text -/

/-- A string between its quotes. -/
def quoteChars (s : String) : List Char := '"' :: Quoted.encode s.toList ++ ['"']

/-- The text of a value that holds no others. -/
def leafChars : Json → List Char
  | .null => ['n', 'u', 'l', 'l']
  | .bool true => ['t', 'r', 'u', 'e']
  | .bool false => ['f', 'a', 'l', 's', 'e']
  | .int i => Numeral.chars i
  | .float x => (Layout.json.write x).toList
  | .str s => quoteChars s
  | .arr _ => ['[', ']']
  | .obj _ => ['\x7b', '\x7d']

mutual

/-- The text without blanks. -/
def compactChars : Json → List Char
  | .arr items => '[' :: compactItems items ++ [']']
  | .obj fields => '\x7b' :: compactFields fields ++ ['\x7d']
  | leaf => leafChars leaf

/-- Items with commas between them. -/
def compactItems : List Json → List Char
  | [] => []
  | [item] => compactChars item
  | item :: items => compactChars item ++ ',' :: compactItems items

/-- Fields with commas between them. -/
def compactFields : List (String × Json) → List Char
  | [] => []
  | [(key, value)] => quoteChars key ++ ':' :: compactChars value
  | (key, value) :: fields =>
    quoteChars key ++ ':' :: compactChars value ++ ',' :: compactFields fields

end

def compact (j : Json) : String := String.ofList j.compactChars

/-- A new line at a depth. -/
def newline (depth : Nat) : List Char := '\n' :: List.replicate (2 * depth) ' '

mutual

/-- The text over several lines, for a value that stands at a depth. -/
def prettyChars (depth : Nat) : Json → List Char
  | .arr (item :: items) => '[' :: prettyItems (depth + 1) (item :: items) ++ newline depth ++ [']']
  | .obj (field :: fields) =>
    '\x7b' :: prettyFields (depth + 1) (field :: fields) ++ newline depth ++ ['\x7d']
  | leaf => leafChars leaf

/-- Items on a line each, with commas between them. -/
def prettyItems (depth : Nat) : List Json → List Char
  | [] => []
  | [item] => newline depth ++ prettyChars depth item
  | item :: items => newline depth ++ prettyChars depth item ++ ',' :: prettyItems depth items

/-- Fields on a line each, with commas between them. -/
def prettyFields (depth : Nat) : List (String × Json) → List Char
  | [] => []
  | [(key, value)] => newline depth ++ quoteChars key ++ ':' :: ' ' :: prettyChars depth value
  | (key, value) :: fields =>
    newline depth ++ quoteChars key ++ ':' :: ' ' :: prettyChars depth value ++
      ',' :: prettyFields depth fields

end

def pretty (j : Json) : String := String.ofList (j.prettyChars 0)

/-! ## Sorted objects -/

/-- Sets a field of an object whose fields are sorted by name. -/
def setSorted (key : String) (value : Json) : List (String × Json) → List (String × Json)
  | [] => [(key, value)]
  | (k, v) :: fields =>
    if key < k then (key, value) :: (k, v) :: fields
    else if key = k then (key, value) :: fields
    else (k, v) :: setSorted key value fields

/-- The object of some fields sorted by name, the last of several of one name. -/
def sortedObject (fields : List (String × Json)) : Json :=
  .obj (fields.foldl (fun sorted f => setSorted f.1 f.2 sorted) [])

end Json
end TraversalPlan

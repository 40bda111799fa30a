import TraversalPlan.Binary64.Text
import TraversalPlan.Numeral

/-!
# Literal values

Values are operands of comparisons, ids of graph elements and results of queries.

* `Value`: null, booleans, integers, floating-point numbers, strings and lists.
* `Value.text`: the literal inside an expression. Strings are quoted, numbers with a fraction show
  it, lists stand in brackets.
-/

namespace TraversalPlan

/-- A literal value. -/
inductive Value where
  | null
  | bool (b : Bool)
  | int (i : Int64)
  | float (x : Binary64)
  | string (s : String)
  | list (items : List Value)
deriving Inhabited, Repr

namespace Value

/-- The name of the kind of a value. -/
def kindName : Value → String
  | null => "Null"
  | bool _ => "Bool"
  | int _ => "Int64"
  | float _ => "Float64"
  | string _ => "String"
  | list _ => "List"

def asString? : Value → Option String
  | string s => some s
  | _ => none

def asInt? : Value → Option Int64
  | int i => some i
  | _ => none

def isNull : Value → Bool
  | null => true
  | _ => false

/-! ## Text -/

/-- A character inside a quoted literal: the quote and the backslash follow a backslash. -/
def quoteChar (c : Char) : List Char := if c = '"' ∨ c = '\\' then ['\\', c] else [c]

/-- A string literal. -/
def quote (s : String) : List Char := '"' :: s.toList.flatMap quoteChar ++ ['"']

mutual

/-- The literal as it stands in an expression. -/
def chars : Value → List Char
  | null => ['n', 'u', 'l', 'l']
  | bool true => ['t', 'r', 'u', 'e']
  | bool false => ['f', 'a', 'l', 's', 'e']
  | int i => Numeral.chars i.toInt
  | float x => (Layout.literal.write x).toList
  | string s => quote s
  | list items => '[' :: itemChars items ++ [']']

/-- Items with a comma and a blank between them. -/
def itemChars : List Value → List Char
  | [] => []
  | [v] => chars v
  | v :: vs => chars v ++ ',' :: ' ' :: itemChars vs

end

def text (v : Value) : String := String.ofList v.chars

end Value
end TraversalPlan

import TraversalPlan.Text.Property.Basic
import TraversalPlan.Text.Property.Combining
import TraversalPlan.Text.Property.Invisible

/-!
# Escaped strings

* `Escaped.write`: a string between quotes in which every character can be told apart.
* `Escaped.writeList`: a list of such strings between brackets.
-/

namespace TraversalPlan.Escaped

/-- A character that cannot be told apart when it stands by itself. -/
def isHidden (c : Char) : Bool :=
  Property.holds Property.extending c.toNat || Property.holds Property.ignorable c.toNat ||
    Property.holds Property.invisible c.toNat

/-- A character as written. A hidden one is written by its number. -/
def char (c : Char) : List Char :=
  if c.toNat = 0 then ['\\', '0']
  else if c = '\t' then ['\\', 't']
  else if c = '\r' then ['\\', 'r']
  else if c = '\n' then ['\\', 'n']
  else if c = '"' ∨ c = '\\' then ['\\', c]
  else if isHidden c then
    '\\' :: 'u' :: '\x7b' :: Nat.toDigits 16 c.toNat ++ ['\x7d']
  else [c]

def write (s : String) : String := String.ofList ('"' :: s.toList.flatMap char ++ ['"'])

def writeList (xs : List String) : String := "[" ++ ", ".intercalate (xs.map write) ++ "]"

end TraversalPlan.Escaped

import TraversalPlan.Json.Quoted

/-!
# JSON documents as spelled

A `Document` is a parsed JSON text whose numbers and strings are left as they were spelled. What a
number or a string denotes is decided by the reader that asks for it, so a field nobody asks for is
only checked for its form.

* `Document.parse`: the document of a text, with nothing but blanks around it.
-/

namespace TraversalPlan

/-- A JSON text, with literals as spelled. -/
inductive Document where
  | null
  | bool (b : Bool)
  | number (literal : List Char)
  | string (raw : List Char)
  | array (items : List Document)
  | object (fields : List (List Char × Document))
deriving Inhabited

namespace Document

/-- The four characters between tokens. -/
def isBlank (c : Char) : Bool := c = ' ' || c = '\t' || c = '\n' || c = '\r'

def skipBlanks (cs : List Char) : List Char := cs.dropWhile isBlank

/-! ## Numbers -/

/-- The digits in front and the rest. -/
def spanDigits (cs : List Char) : List Char × List Char :=
  (cs.takeWhile Char.isDigit, cs.dropWhile Char.isDigit)

/-- An integer part: a zero, or digits that do not begin with one. -/
def spanWhole? (cs : List Char) : Option (List Char × List Char) :=
  match spanDigits cs with
  | ([], _) => none
  | ('0' :: _ :: _, _) => none
  | (ds, rest) => some (ds, rest)

/-- A fraction, if there is a point. -/
def spanFraction? : List Char → Option (List Char × List Char)
  | '.' :: rest =>
    match spanDigits rest with
    | ([], _) => none
    | (ds, rest) => some ('.' :: ds, rest)
  | rest => some ([], rest)

/-- The sign of an exponent. -/
def spanSign : List Char → List Char × List Char
  | '+' :: rest => (['+'], rest)
  | '-' :: rest => (['-'], rest)
  | rest => ([], rest)

/-- An exponent, if there is an `e`. -/
def spanExponent? : List Char → Option (List Char × List Char)
  | c :: rest =>
    if c = 'e' ∨ c = 'E' then
      let (sign, rest) := spanSign rest
      match spanDigits rest with
      | ([], _) => none
      | (ds, rest) => some (c :: sign ++ ds, rest)
    else some ([], c :: rest)
  | [] => some ([], [])

/-- The longest number in front. -/
def spanNumber? (cs : List Char) : Option (List Char × List Char) := do
  let (minus, cs) := match cs with
    | '-' :: rest => (['-'], rest)
    | rest => ([], rest)
  let (whole, cs) ← spanWhole? cs
  let (fraction, cs) ← spanFraction? cs
  let (exponent, cs) ← spanExponent? cs
  return (minus ++ whole ++ fraction ++ exponent, cs)

/-! ## Values -/

mutual

/-- Reads a value and returns what follows it. The fuel bounds the number of tokens. -/
def value? : Nat → List Char → Option (Document × List Char)
  | 0, _ => none
  | fuel + 1, cs =>
    match skipBlanks cs with
    | 'n' :: 'u' :: 'l' :: 'l' :: rest => some (.null, rest)
    | 't' :: 'r' :: 'u' :: 'e' :: rest => some (.bool true, rest)
    | 'f' :: 'a' :: 'l' :: 's' :: 'e' :: rest => some (.bool false, rest)
    | '"' :: rest => do
      let (raw, rest) ← Quoted.span? rest
      return (.string raw, rest)
    | '[' :: rest =>
      match skipBlanks rest with
      | ']' :: rest => some (.array [], rest)
      | rest => do
        let (items, rest) ← items? fuel rest
        return (.array items, rest)
    | '\x7b' :: rest =>
      match skipBlanks rest with
      | '\x7d' :: rest => some (.object [], rest)
      | rest => do
        let (fields, rest) ← fields? fuel rest
        return (.object fields, rest)
    | rest => do
      let (literal, rest) ← spanNumber? rest
      return (.number literal, rest)

/-- Reads the items of a nonempty array and its closing bracket. -/
def items? : Nat → List Char → Option (List Document × List Char)
  | 0, _ => none
  | fuel + 1, cs => do
    let (item, rest) ← value? fuel cs
    match skipBlanks rest with
    | ']' :: rest => return ([item], rest)
    | ',' :: rest =>
      let (items, rest) ← items? fuel rest
      return (item :: items, rest)
    | _ => none

/-- Reads the fields of a nonempty object and its closing brace. -/
def fields? : Nat → List Char → Option (List (List Char × Document) × List Char)
  | 0, _ => none
  | fuel + 1, cs =>
    match skipBlanks cs with
    | '"' :: rest => do
      let (key, rest) ← Quoted.span? rest
      match skipBlanks rest with
      | ':' :: rest =>
        let (value, rest) ← value? fuel rest
        match skipBlanks rest with
        | '\x7d' :: rest => return ([(key, value)], rest)
        | ',' :: rest =>
          let (fields, rest) ← fields? fuel rest
          return ((key, value) :: fields, rest)
        | _ => none
      | _ => none
    | _ => none

end

/-- The document of a whole text. -/
def parseChars (cs : List Char) : Option Document :=
  match value? (cs.length + 1) cs with
  | some (document, rest) => if (skipBlanks rest).isEmpty then some document else none
  | none => none

/-- The document of a whole text. -/
def parse (text : String) : Option Document := parseChars text.toList

end Document
end TraversalPlan

/-!
# Quoted text

The characters between the quotes of a JSON string.

* `Quoted.encode`: quote, backslash and control characters are escaped, nothing else is.
* `Quoted.span?`: splits what follows an opening quote at the closing one, without interpreting
  escapes.
* `Quoted.decode`: interprets escapes, and refuses half of a surrogate pair on its own.
-/

namespace TraversalPlan.Quoted

/-- A lower-case hexadecimal digit. -/
def hexDigit (n : Nat) : Char := Nat.digitChar (n % 16)

/-- One character as written between quotes. -/
def encodeChar (c : Char) : List Char :=
  if c = '"' then ['\\', '"']
  else if c = '\\' then ['\\', '\\']
  else if c = '\n' then ['\\', 'n']
  else if c = '\r' then ['\\', 'r']
  else if c = '\t' then ['\\', 't']
  else if c.toNat = 8 then ['\\', 'b']
  else if c.toNat = 12 then ['\\', 'f']
  else if c.toNat < 32 then ['\\', 'u', '0', '0', hexDigit (c.toNat / 16), hexDigit c.toNat]
  else [c]

/-- Text as written between quotes. -/
def encode (cs : List Char) : List Char := cs.flatMap encodeChar

/-- The value of a hexadecimal digit of either case. -/
def hexValue? (c : Char) : Option Nat :=
  if c.isDigit then some (c.toNat - 48)
  else if 'a' ≤ c ∧ c ≤ 'f' then some (c.toNat - 87)
  else if 'A' ≤ c ∧ c ≤ 'F' then some (c.toNat - 55)
  else none

/-- The value of four hexadecimal digits. -/
def hex4? (a b c d : Char) : Option Nat := do
  let a ← hexValue? a
  let b ← hexValue? b
  let c ← hexValue? c
  let d ← hexValue? d
  return ((a * 16 + b) * 16 + c) * 16 + d

/-- The character of a two-character escape. -/
def simpleEscape? (c : Char) : Option Char :=
  if c = '"' ∨ c = '\\' ∨ c = '/' then some c
  else if c = 'b' then some (Char.ofNat 8)
  else if c = 'f' then some (Char.ofNat 12)
  else if c = 'n' then some '\n'
  else if c = 'r' then some '\r'
  else if c = 't' then some '\t'
  else none

/-- Splits the characters after an opening quote into the raw text and what follows the closing
quote. Escapes are checked for their form only. -/
def span? : List Char → Option (List Char × List Char)
  | [] => none
  | '"' :: rest => some ([], rest)
  | '\\' :: 'u' :: a :: b :: c :: d :: rest => do
    let _ ← hex4? a b c d
    let (raw, rest) ← span? rest
    return ('\\' :: 'u' :: a :: b :: c :: d :: raw, rest)
  | '\\' :: c :: rest => do
    let _ ← simpleEscape? c
    let (raw, rest) ← span? rest
    return ('\\' :: c :: raw, rest)
  | c :: rest =>
    if c.toNat < 32 ∨ c = '\\' then none
    else do
      let (raw, rest) ← span? rest
      return (c :: raw, rest)

/-- Interprets the raw text of a string. -/
def decode : List Char → Option (List Char)
  | [] => some []
  | '\\' :: 'u' :: a :: b :: c :: d :: rest => do
    let n ← hex4? a b c d
    if 0xD800 ≤ n ∧ n < 0xDC00 then
      match rest with
      | '\\' :: 'u' :: a :: b :: c :: d :: rest => do
        let m ← hex4? a b c d
        if 0xDC00 ≤ m ∧ m < 0xE000 then
          let tail ← decode rest
          return Char.ofNat (0x10000 + (n - 0xD800) * 0x400 + (m - 0xDC00)) :: tail
        else none
      | _ => none
    else if 0xDC00 ≤ n ∧ n < 0xE000 then none
    else
      let tail ← decode rest
      return Char.ofNat n :: tail
  | '\\' :: c :: rest => do
    let c ← simpleEscape? c
    let tail ← decode rest
    return c :: tail
  | c :: rest =>
    if c = '\\' then none else (decode rest).map (c :: ·)

end TraversalPlan.Quoted

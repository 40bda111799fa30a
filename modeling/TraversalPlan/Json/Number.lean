import TraversalPlan.Binary64.Basic
import TraversalPlan.Json.Document

/-!
# Numbers in documents

What a number literal of a document denotes.

* An integer that fits 64 bits is that integer; minus zero and integers beyond that are floating
  point.
* A floating-point literal is read fast rather than rounded once: the leading digits that fit a
  64-bit significand are kept, and the significand is scaled by powers of ten that are themselves
  rounded. A literal beyond the largest number denotes nothing, one below the smallest is zero.

`Number.ofLiteral?` is the reading.
-/

namespace TraversalPlan

/-- The number that a literal denotes. -/
inductive Number where
  | natural (n : UInt64)
  | negative (i : Int64)
  | float (x : Binary64)
deriving DecidableEq, Repr

namespace Number

/-- A literal taken apart. The exponent is its sign and its digits. -/
structure Parts where
  minus : Bool
  whole : List Char
  fraction : Option (List Char)
  exponent : Option (Bool × List Char)

/-- Takes a literal of the right form apart. -/
def parts (literal : List Char) : Parts :=
  let (minus, cs) := match literal with
    | '-' :: rest => (true, rest)
    | rest => (false, rest)
  let (whole, cs) := Document.spanDigits cs
  let (fraction, cs) := match cs with
    | '.' :: rest =>
      let (ds, rest) := Document.spanDigits rest
      (some ds, rest)
    | rest => (none, rest)
  let exponent := match cs with
    | _ :: '-' :: ds => some (true, ds)
    | _ :: '+' :: ds => some (false, ds)
    | _ :: ds => some (false, ds)
    | [] => none
  ⟨minus, whole, fraction, exponent⟩

/-- Appends digits to a significand while it fits 64 bits, and returns the digits left over. -/
def absorb (significand : Nat) : List Char → Nat × List Char
  | [] => (significand, [])
  | c :: rest =>
    let next := 10 * significand + (c.toNat - 48)
    if next < UInt64.size then absorb next rest else (significand, c :: rest)

/-- The number nearest a power of ten. -/
def powerOfTen (k : Nat) : Binary64 := Binary64.round false (Nat.pow 10 k) 1

/-- Multiplies by a power of ten, at most `10 ^ 308` at a time. The result is none if it is beyond
the largest number. -/
def scale : Nat → Binary64 → Int → Option Binary64
  | 0, x, _ => some x
  | fuel + 1, x, e =>
    if e.natAbs ≤ 308 then
      if 0 ≤ e then
        let y := x.mul (powerOfTen e.natAbs)
        if y.isFinite then some y else none
      else some (x.div (powerOfTen e.natAbs))
    else if x.significand = 0 then some x
    else if 0 ≤ e then none
    else scale fuel (x.div (powerOfTen 308)) (e + 308)

/-- The sign, significand and power of ten together. -/
def assemble (minus : Bool) (significand : Nat) (e : Int) : Option Binary64 :=
  (scale (e.natAbs / 308 + 1) (Binary64.ofNat significand) e).map fun x =>
    if minus then x.neg else x

/-- The largest power of ten that an exponent may name. -/
def maxExponent : Nat := 0x7fffffff

/-- The floating-point number of a literal with a fraction, an exponent or too many digits. -/
def float? (p : Parts) : Option Binary64 :=
  let (significand, left) := absorb 0 p.whole
  let fraction := p.fraction.getD []
  let (significand, dropped) := absorb significand fraction
  let e : Int := (left.length : Int) - ((fraction.length - dropped.length : Nat) : Int)
  match p.exponent with
  | none => assemble p.minus significand e
  | some (minus, ds) =>
    let n := Nat.ofDigitChars 10 ds 0
    if maxExponent < n then
      if significand ≠ 0 ∧ !minus then none
      else some (Binary64.ofMagnitude p.minus 0)
    else assemble p.minus significand (if minus then e - n else e + n)

/-- The number that a literal of the right form denotes. -/
def ofLiteral? (literal : List Char) : Option Number :=
  let p := parts literal
  let n := Nat.ofDigitChars 10 p.whole 0
  if p.fraction.isSome || p.exponent.isSome || decide (UInt64.size ≤ n) then (float? p).map .float
  else if !p.minus then some (.natural (UInt64.ofNat n))
  else if n = 0 ∨ 0x8000000000000000 < n then some (.float (Binary64.ofNat n).neg)
  else some (.negative (Int64.ofInt (-n)))

end Number
end TraversalPlan

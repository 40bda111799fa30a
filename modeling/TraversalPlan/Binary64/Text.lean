import TraversalPlan.Binary64.Basic

/-!
# Decimal text of floating-point numbers

* `Binary64.shortest`: the fewest decimal digits that read back as the number, and of those the
  nearest to it.
* `Layout`: what a notation decides beyond the digits. `Layout.literal` writes numbers inside
  expressions, `Layout.plain` inside messages and tables, `Layout.json` inside documents.
* `Binary64.ofText?`: reading a number back, rounded once.
-/

namespace TraversalPlan

/-! ## Shortest digits -/

/-- Which way the digits go when a number lies halfway between two shortest candidates. -/
inductive DigitTie
  | up
  | even
deriving DecidableEq, Repr

/-- A positive decimal `digits * 10 ^ exponent`. -/
structure Decimal where
  digits : Nat
  exponent : Int
deriving DecidableEq, Repr

namespace Decimal

/-- The digits as written, most significant first. -/
def digitChars (d : Decimal) : List Char := Nat.toDigits 10 d.digits

/-- The power of ten of the first digit. -/
def leading (d : Decimal) : Int := d.exponent + ((d.digitChars.length : Int) - 1)

/-- Drops up to `fuel` zeros at the end of the digits. -/
def trim : Nat → Decimal → Decimal
  | 0, d => d
  | fuel + 1, d => if d.digits % 10 = 0 then trim fuel ⟨d.digits / 10, d.exponent + 1⟩ else d

end Decimal

namespace Binary64

/-- `num / den` divided by `10 ^ k`, as a ratio. -/
def scaleDecimal (num den : Nat) (k : Int) : Nat × Nat :=
  if 0 ≤ k then (num, den * Nat.pow 10 k.toNat) else (num * Nat.pow 10 (-k).toNat, den)

/-- The largest `k` from `-324` to `308` with `10 ^ k ≤ num / den`. -/
def decimalExponent (num den : Nat) : Int :=
  let fits := fun (i : Nat) =>
    let (a, b) := scaleDecimal num den (308 - (i : Int))
    b ≤ a
  308 - (((List.range 633).find? fits).getD 632 : Int)

/-- The ends of the interval of reals that round to a positive number and the number itself, all in
quarters of its unit: low end, number, high end. -/
def roundingQuarters (x : Binary64) : Nat × Nat × Nat :=
  let m := x.significand
  let narrow := decide (x.fractionField = 0 ∧ 1 < x.exponentField)
  (4 * m - (if narrow then 1 else 2), 4 * m, 4 * m + 2)

/-- The point of the decimal grid `10 ^ k` that reads back as `x`, if there is one: of the two
neighbours of `x` on the grid the nearer one that rounds to `x`. -/
def onGrid (tie : DigitTie) (x : Binary64) (k : Int) : Option Nat :=
  let (lo, mid, hi) := x.roundingQuarters
  let (n, d) := scaleDown 1 1 (2 - x.unitExponent)
  let (a, b) := scaleDecimal n d k
  let closed := decide (x.significand % 2 = 0)
  let inside := fun (p : Nat) =>
    if closed then decide (lo * a ≤ p * b ∧ p * b ≤ hi * a)
    else decide (lo * a < p * b ∧ p * b < hi * a)
  let below := mid * a / b
  let rest := mid * a % b
  match inside below, inside (below + 1) with
  | true, false => some below
  | false, true => if rest = 0 then none else some (below + 1)
  | false, false => none
  | true, true =>
    if 2 * rest < b then some below
    else if b < 2 * rest then some (below + 1)
    else match tie with
      | .up => some (below + 1)
      | .even => some (below + below % 2)

/-- The first of some grids with a point that reads back as `x`, and that point. -/
def firstOnGrids (tie : DigitTie) (x : Binary64) (grids : List Int) : Option Decimal :=
  grids.findSome? fun k => (x.onGrid tie k).map fun p => ⟨p, k⟩

/-- The grids on which a positive ratio has one to seventeen digits. -/
def digitGrids (num den : Nat) : List Int :=
  let top := decimalExponent num den
  (List.range 17).map fun (n : Nat) => top - (n : Int)

/-- The shortest decimal that reads back as a positive finite number. -/
def shortest (tie : DigitTie) (x : Binary64) : Decimal :=
  ((x.firstOnGrids tie (digitGrids x.ratio.1 x.ratio.2)).map (Decimal.trim 400)).getD ⟨0, 0⟩

end Binary64

/-! ## Notations -/

/-- What a notation for floating-point numbers decides beyond the digits. -/
structure Layout where
  tie : DigitTie
  /-- The powers of ten of the first digit that are written without an exponent; `none` for all. -/
  positional : Option (Int × Int)
  /-- An integer written without an exponent ends in `.0`. -/
  pointZero : Bool
  /-- A positive exponent has a plus sign. -/
  plus : Bool

namespace Layout

/-- Inside expressions: positional from `1e-4` up to `1e16`, always with a fractional digit. -/
def literal : Layout := ⟨.up, some (-4, 15), true, false⟩

/-- Inside messages and tables: always positional, an integer without a point. -/
def plain : Layout := ⟨.up, none, false, false⟩

/-- Inside documents: positional from `1e-5` up to `1e16`, a positive exponent with its sign. -/
def json : Layout := ⟨.even, some (-5, 15), true, true⟩

def zeros (n : Nat) : List Char := List.replicate n '0'

/-- Digits without an exponent. -/
def writePositional (l : Layout) (d : Decimal) : List Char :=
  let ds := d.digitChars
  if d.leading < 0 then '0' :: '.' :: zeros ((-d.leading).toNat - 1) ++ ds
  else
    let whole := d.leading.toNat + 1
    if ds.length ≤ whole then
      ds ++ zeros (whole - ds.length) ++ (if l.pointZero then ['.', '0'] else [])
    else ds.take whole ++ '.' :: ds.drop whole

/-- One digit before the point and a power of ten. -/
def writeExponent (l : Layout) (d : Decimal) : List Char :=
  let mantissa := match d.digitChars with
    | [] => []
    | [c] => [c]
    | c :: r => c :: '.' :: r
  let sign := if d.leading < 0 then ['-'] else if l.plus then ['+'] else []
  mantissa ++ 'e' :: sign ++ Nat.toDigits 10 d.leading.natAbs

/-- The digits of a positive number in this notation. -/
def writeDecimal (l : Layout) (d : Decimal) : List Char :=
  match l.positional with
  | none => l.writePositional d
  | some (lo, hi) =>
    if lo ≤ d.leading ∧ d.leading ≤ hi then l.writePositional d else l.writeExponent d

theorem writeDecimal_eq_or (l : Layout) (d : Decimal) :
    l.writeDecimal d = l.writePositional d ∨ l.writeDecimal d = l.writeExponent d := by
  unfold writeDecimal
  split
  · exact .inl rfl
  · split
    · exact .inl rfl
    · exact .inr rfl

/-- The text of a number. The sign of zero is written, that of a not-a-number is not. -/
def write (l : Layout) (x : Binary64) : String :=
  if x.isNaN then "NaN"
  else
    let magnitude :=
      if x.isInfinite then ['i', 'n', 'f']
      else if x.significand = 0 then l.writePositional ⟨0, 0⟩
      else l.writeDecimal (x.shortest l.tie)
    String.ofList (if x.negative then '-' :: magnitude else magnitude)

end Layout

/-! ## Reading -/

namespace Binary64

/-- The exponent part of a number's text: nothing, or `e` with an optional sign and digits. -/
def exponentOf? : List Char → Option Int
  | [] => some 0
  | c :: rest =>
    if c ≠ 'e' ∧ c ≠ 'E' then none
    else
      let (negative, ds) := match rest with
        | '-' :: r => (true, r)
        | '+' :: r => (false, r)
        | r => (false, r)
      if ds.isEmpty || !ds.all Char.isDigit then none
      else
        let n : Int := Nat.ofDigitChars 10 ds 0
        some (if negative then -n else n)

/-- The magnitude of an unsigned number's text: digits with at most one point, at least one digit,
and an optional exponent. -/
def unsignedOfText? (negative : Bool) (cs : List Char) : Option Binary64 :=
  let whole := cs.takeWhile Char.isDigit
  let (fraction, rest) := match cs.dropWhile Char.isDigit with
    | '.' :: r => (r.takeWhile Char.isDigit, r.dropWhile Char.isDigit)
    | r => ([], r)
  if whole.isEmpty && fraction.isEmpty then none
  else (exponentOf? rest).map fun e =>
    ofDecimal negative (Nat.ofDigitChars 10 (whole ++ fraction) 0) (e - (fraction.length : Int))

/-- Reads a number: an optional sign, then digits, `inf`, `infinity` or `nan` in any case. -/
def ofText? (text : String) : Option Binary64 :=
  let (negative, cs) := match text.toList with
    | '-' :: r => (true, r)
    | '+' :: r => (false, r)
    | r => (false, r)
  let word := String.ofList (cs.map Char.toLower)
  if word = "inf" ∨ word = "infinity" then some (infinity negative)
  else if word = "nan" then some (if negative then nan.neg else nan)
  else unsignedOfText? negative cs

end Binary64
end TraversalPlan

/-!
# Binary floating-point numbers of 64 bits

A number is its bit pattern, so two numbers are equal exactly when their bits are.

* `Binary64.significand`, `Binary64.unitExponent`: a finite number is
  `± significand * 2 ^ unitExponent`.
* `Binary64.round`: the number nearest a ratio of naturals, a tie going to the even significand and
  a ratio past the largest number to infinity.
* `Binary64.mul`, `Binary64.div`: the exact product and quotient, rounded once.
* `Binary64.toUInt64`: the cast to an integer.
-/

namespace TraversalPlan

/-- A 64-bit binary floating-point number, given by its bits. -/
structure Binary64 where
  /-- Sign, eleven exponent bits and fifty-two fraction bits, most significant first. -/
  bits : UInt64
deriving DecidableEq, Repr, Inhabited

namespace Binary64

/-! ## Fields -/

/-- The weight of the sign bit. -/
def signUnit : Nat := 0x8000000000000000

/-- The weight of the lowest exponent bit, which is also the leading one of a normal significand. -/
def exponentUnit : Nat := 0x10000000000000

/-- The sign bit is set. -/
def negative (x : Binary64) : Bool := decide (signUnit ≤ x.bits.toNat)

/-- The eleven exponent bits. -/
def exponentField (x : Binary64) : Nat := x.bits.toNat / exponentUnit % 2048

/-- The fifty-two fraction bits. -/
def fractionField (x : Binary64) : Nat := x.bits.toNat % exponentUnit

def isNaN (x : Binary64) : Bool := x.exponentField == 2047 && x.fractionField != 0

def isInfinite (x : Binary64) : Bool := x.exponentField == 2047 && x.fractionField == 0

def isFinite (x : Binary64) : Bool := x.exponentField != 2047

/-- The whole significand, with the leading one that a normal number leaves out. -/
def significand (x : Binary64) : Nat :=
  if x.exponentField = 0 then x.fractionField else exponentUnit + x.fractionField

/-- The power of two that one unit of the significand stands for. -/
def unitExponent (x : Binary64) : Int := (max x.exponentField 1 : Nat) - 1075

/-- The bits of a magnitude (`word < signUnit`) under a sign. -/
def ofMagnitude (negative : Bool) (word : Nat) : Binary64 :=
  ⟨UInt64.ofNat (if negative then signUnit + word else word)⟩

/-- The magnitude word of infinity. -/
def infinityWord : Nat := 2047 * exponentUnit

def zero : Binary64 := ofMagnitude false 0

def infinity (negative : Bool) : Binary64 := ofMagnitude negative infinityWord

/-- A quiet not-a-number. -/
def nan : Binary64 := ofMagnitude false (infinityWord + exponentUnit / 2)

def neg (x : Binary64) : Binary64 := ⟨x.bits ^^^ 0x8000000000000000⟩

/-! ## Rounding -/

/-- The integer nearest `num / den`, a tie going to the even one. -/
def roundToEven (num den : Nat) : Nat :=
  let whole := num / den
  let twice := 2 * (num % den)
  if twice < den then whole
  else if den < twice then whole + 1
  else whole + whole % 2

/-- The ratio `num / den` divided by `2 ^ e`, again as a ratio. -/
def scaleDown (num den : Nat) (e : Int) : Nat × Nat :=
  if 0 ≤ e then (num, den * Nat.pow 2 e.toNat) else (num * Nat.pow 2 (-e).toNat, den)

/-- The largest `e` with `2 ^ e ≤ num / den`, for a positive ratio. -/
def binaryExponent (num den : Nat) : Int :=
  let e : Int := (num.log2 : Int) - den.log2
  let (a, b) := scaleDown num den e
  if a < b then e - 1 else e

/-- The number nearest `num / den` under a sign. -/
def round (negative : Bool) (num den : Nat) : Binary64 :=
  if num = 0 then ofMagnitude negative 0
  else
    let q := max (binaryExponent num den - 52) (-1074)
    let (a, b) := scaleDown num den q
    ofMagnitude negative (min infinityWord ((q + 1074).toNat * exponentUnit + roundToEven a b))

/-- The number nearest a natural number. -/
def ofNat (n : Nat) : Binary64 := round false n 1

/-! ## Magnitudes as ratios -/

/-- The magnitude of a finite number as a ratio of naturals. -/
def ratio (x : Binary64) : Nat × Nat :=
  scaleDown x.significand 1 (-x.unitExponent)

/-- The magnitude of a finite number is at most that of another. -/
def magnitudeLE (x y : Binary64) : Bool := x.ratio.1 * y.ratio.2 ≤ y.ratio.1 * x.ratio.2

/-- The integer of 64 bits that a number is cast to, without what follows the point. Numbers out of
range go to the nearest end of the range. -/
def toUInt64 (x : Binary64) : UInt64 :=
  if x.isNaN || x.negative then 0
  else if x.isInfinite then UInt64.ofNat (UInt64.size - 1)
  else UInt64.ofNat (min (x.ratio.1 / x.ratio.2) (UInt64.size - 1))

/-- The product of two finite numbers. -/
def mul (x y : Binary64) : Binary64 :=
  round (x.negative != y.negative) (x.ratio.1 * y.ratio.1) (x.ratio.2 * y.ratio.2)

/-- The quotient of two finite numbers, the second not zero. -/
def div (x y : Binary64) : Binary64 :=
  round (x.negative != y.negative) (x.ratio.1 * y.ratio.2) (x.ratio.2 * y.ratio.1)

/-- The sign and decimal digits `± digits * 10 ^ exponent`, rounded once. A power too large or too
small for any finite result is not computed. -/
def ofDecimal (negative : Bool) (digits : Nat) (exponent : Int) : Binary64 :=
  let places : Int := exponent + ((Nat.toDigits 10 digits).length : Int)
  if digits = 0 then ofMagnitude negative 0
  else if 310 < places then infinity negative
  else if places < -330 then ofMagnitude negative 0
  else if 0 ≤ exponent then round negative (digits * Nat.pow 10 exponent.toNat) 1
  else round negative digits (Nat.pow 10 (-exponent).toNat)

end Binary64
end TraversalPlan

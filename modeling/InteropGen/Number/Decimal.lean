import InteropGen.Number.Binary64

/-!
# Decimals

Two ways to turn a written decimal into a binary64 number.

* `Decimal.nearest` rounds once, and gives the number nearest to the decimal.
* `Decimal.stepwise` is the quick way: it rounds the leading digits, as many as fit in 64 bits,
  then the power of ten, and then their product or quotient. The result can be off by a few units
  in the last place.

Both give an infinity for a decimal that is too large.
-/

set_option autoImplicit false

namespace InteropGen

/-- A decimal: its digits before and after the point, times a power of ten. -/
structure Decimal where
  negative : Bool
  whole : List Char
  fraction : List Char
  exponent : Int

/-- The ways to round a decimal. -/
inductive Rounding where
  | nearest | stepwise
  deriving DecidableEq, Repr

namespace Decimal

/-- The value of a decimal digit. -/
def digitValue (c : Char) : Nat :=
  c.toNat - '0'.toNat

/-- The number that decimal digits spell. -/
def digitsValue (digits : List Char) : Nat :=
  digits.foldl (fun n c => 10 * n + digitValue c) 0

/-- The number nearest to a decimal. -/
def nearest (d : Decimal) : Binary64 :=
  .ofDecimal d.negative (digitsValue (d.whole ++ d.fraction)) (d.exponent - d.fraction.length)

/-- Appends digits to a number as long as it fits in 64 bits; the digits from the first that does
not fit on are left over. -/
def appendDigits (n : Nat) : List Char → Nat × List Char
  | [] => (n, [])
  | c :: rest =>
    let next := 10 * n + digitValue c
    if next < 2 ^ 64 then appendDigits next rest else (n, c :: rest)

/-- The greatest power of ten that is applied in one step. -/
def largestPower : Nat := 308

/-- A power of ten, rounded. -/
def power (n : Nat) : Binary64 :=
  .ofDecimal false 1 n

/-- The rounded product of two finite positive numbers. -/
def product (x y : Binary64) : Binary64 :=
  .ofRatio false ⟨x.magnitude.num * y.magnitude.num, x.magnitude.den * y.magnitude.den⟩

/-- The rounded quotient of two finite positive numbers. -/
def quotient (x y : Binary64) : Binary64 :=
  .ofRatio false ⟨x.magnitude.num * y.magnitude.den, x.magnitude.den * y.magnitude.num⟩

/-- A positive number times a power of ten, rounded in every step. A number of 64 bits is zero
after three steps down, so that four are enough. -/
def scale (x : Binary64) (exponent : Int) : (steps : Nat) → Binary64
  | 0 => x
  | steps + 1 =>
    if exponent.natAbs ≤ largestPower then
      if 0 ≤ exponent then product x (power exponent.natAbs)
      else quotient x (power exponent.natAbs)
    else if x.magnitude.num = 0 then x
    else if 0 ≤ exponent then .ofParts false Binary64.infinityBits
    else scale (quotient x (power largestPower)) (exponent + largestPower) steps

/-- A decimal from its leading digits. Digits before the point that do not fit count as zeros, and
those after it are left out. -/
def stepwise (d : Decimal) : Binary64 :=
  let (whole, wholeLeft) := appendDigits 0 d.whole
  let (digits, fractionLeft) := appendDigits whole d.fraction
  let used := d.fraction.length - fractionLeft.length
  let x := scale (.ofInt digits) (d.exponent + wholeLeft.length - used) 4
  if d.negative then .ofParts true x.bits.toNat else x

/-- The number that a decimal stands for. -/
def round (d : Decimal) : Rounding → Binary64
  | .nearest => d.nearest
  | .stepwise => d.stepwise

end Decimal

end InteropGen

/-!
# Double precision numbers

A binary64 number is its 64 bits, so that zero keeps its sign and equality is equality of bits.
A finite number has the magnitude `mantissa * 2 ^ exponent`, which is handled as a quotient of
natural numbers; nothing here is computed in floating point.

* `Binary64.ofRatio` rounds a quotient to the nearest number, a tie to the even mantissa;
* `Binary64.ofDecimal` and `Binary64.ofInt` are that rounding of a decimal and of an integer.
-/

set_option autoImplicit false

namespace InteropGen

/-- Powers of numbers are the ones they are computed by, also in modules that know powers in monoids.
These modules import what defines monoids first. -/
@[default_instance high]
instance (priority := high) numberPower {α : Type} [NatPow α] : Pow α Nat := instPowNat

/-- A binary64 number: sign bit, 11 exponent bits, 52 fraction bits. -/
structure Binary64 where
  bits : UInt64
  deriving DecidableEq, Inhabited

namespace Binary64

/-- The sign bit; set also for negative zero. -/
def negative (x : Binary64) : Bool :=
  decide (2 ^ 63 ≤ x.bits.toNat)

/-- The biased exponent, `2047` for infinities and NaN. -/
def exponentField (x : Binary64) : Nat :=
  x.bits.toNat / 2 ^ 52 % 2 ^ 11

/-- The 52 low bits. -/
def fraction (x : Binary64) : Nat :=
  x.bits.toNat % 2 ^ 52

/-- Neither an infinity nor NaN. -/
def isFinite (x : Binary64) : Bool :=
  x.exponentField != 2047

/-- Not a number. -/
def isNaN (x : Binary64) : Bool :=
  x.exponentField == 2047 && x.fraction != 0

/-- The integer that the exponent scales: the fraction, with the leading one of a normal number. -/
def mantissa (x : Binary64) : Nat :=
  if x.exponentField = 0 then x.fraction else 2 ^ 52 + x.fraction

/-- The power of two that scales the mantissa. -/
def exponent (x : Binary64) : Int :=
  (max x.exponentField 1 : Nat) - 1075

/-- The number with the given sign whose other 63 bits spell `low`. -/
def ofParts (negative : Bool) (low : Nat) : Binary64 :=
  ⟨UInt64.ofNat ((if negative then 2 ^ 63 else 0) + low)⟩

/-- The low 63 bits of an infinity. -/
def infinityBits : Nat := 2047 * 2 ^ 52

/-- A quotient of natural numbers, `den` positive. -/
structure Ratio where
  num : Nat
  den : Nat

/-- `m * 2 ^ e`. -/
def Ratio.scaled (m : Nat) (e : Int) : Ratio :=
  if 0 ≤ e then ⟨m * 2 ^ e.toNat, 1⟩ else ⟨m, 2 ^ (-e).toNat⟩

/-- The absolute value of a finite number. -/
def magnitude (x : Binary64) : Ratio :=
  Ratio.scaled x.mantissa x.exponent

/-- The whole number nearest to `num / den`, the even one of two equally near. -/
def roundEven (num den : Nat) : Nat :=
  let quotient := num / den
  let twice := 2 * (num % den)
  if twice < den then quotient
  else if den < twice then quotient + 1
  else quotient + quotient % 2

/-- The exponent of the leading binary digit of a positive quotient. -/
def leadingExponent (r : Ratio) : Int :=
  let guess : Int := (Nat.log2 r.num : Int) - (Nat.log2 r.den : Int)
  let fits := if 0 ≤ guess then r.den * 2 ^ guess.toNat ≤ r.num
    else r.den ≤ r.num * 2 ^ (-guess).toNat
  if fits then guess else guess - 1

/-- The number nearest to a quotient, a tie going to the even mantissa; an infinity when the
quotient rounds beyond the largest finite number. -/
def ofRatio (negative : Bool) (r : Ratio) : Binary64 :=
  if r.num = 0 then ofParts negative 0
  else
    let unit : Int := max (leadingExponent r - 52) (-1074)
    let m := if 0 ≤ unit then roundEven r.num (r.den * 2 ^ unit.toNat)
      else roundEven (r.num * 2 ^ (-unit).toNat) r.den
    -- A mantissa that carries to `2 ^ 53` moves into the exponent by itself.
    let low := (unit + 1074).toNat * 2 ^ 52 + m
    ofParts negative (min low infinityBits)

/-- The number nearest to an integer. -/
def ofInt (i : Int) : Binary64 :=
  ofRatio (i < 0) ⟨i.natAbs, 1⟩

/-- How many decimal digits a positive number has. -/
def digitCount (n : Nat) : Nat :=
  (Nat.toDigits 10 n).length

/-- The number nearest to `digits * 10 ^ exponent`. Magnitudes far outside the range of binary64
are decided by their digit count, so that no huge power is computed. -/
def ofDecimal (negative : Bool) (digits : Nat) (exponent : Int) : Binary64 :=
  let places : Int := digitCount digits + exponent
  if digits = 0 ∨ places < -400 then ofParts negative 0
  else if 400 < places then ofParts negative infinityBits
  else if 0 ≤ exponent then ofRatio negative ⟨digits * 10 ^ exponent.toNat, 1⟩
  else ofRatio negative ⟨digits, 10 ^ (-exponent).toNat⟩

/-- Whether the magnitude of a finite number is at most `n`. -/
def magnitudeLE (x : Binary64) (n : Nat) : Bool :=
  decide (x.magnitude.num ≤ n * x.magnitude.den)

/-- Whether the magnitude of a finite number is below `n`. -/
def magnitudeLT (x : Binary64) (n : Nat) : Bool :=
  decide (x.magnitude.num < n * x.magnitude.den)

/-- The magnitude of the largest finite single precision number. -/
def largestBinary32 : Nat := (2 ^ 24 - 1) * 2 ^ 104

end Binary64

end InteropGen

import InteropGen.Number.Binary64

/-!
# Shortest decimal digits

The decimal digits of a double precision number are the fewest that read back as the same number,
and among those of that length the ones nearest to it. The search looks, for one digit, two digits
and so on, at the two neighbours of the number on the decimal grid of that many digits, and stops
at the first grid on which a neighbour rounds back; all comparisons are exact.

Where the decimal point goes is decided apart, by a `NumberLayout`.
-/

set_option autoImplicit false

namespace InteropGen

/-- A decimal number by its significant digits. -/
structure Digits where
  /-- The digits as one whole number, without trailing zeros. -/
  value : Nat
  /-- The place of the first digit: the number is `d.ddd * 10 ^ exponent`. -/
  exponent : Int
  deriving DecidableEq

namespace Shortest

open Binary64

/-- The exponent of the leading decimal digit of a positive quotient: the number of digits before
the point less one, or the negated number of zeros up to and with the first digit after it. -/
def leadingPower (r : Ratio) : Int :=
  if r.den ≤ r.num then (digitCount (r.num / r.den) : Int) - 1
  else
    -- `den / num` has as many digits as there are places before the first digit, give or take one.
    let guess := digitCount (r.den / r.num)
    if r.den ≤ r.num * 10 ^ (guess - 1) then -((guess - 1 : Nat) : Int) else -(guess : Int)

/-- The numbers that round to `mantissa * 2 ^ exponent`, as a closed or open interval of quotients
over one denominator. -/
structure Interval where
  low : Nat
  middle : Nat
  high : Nat
  den : Nat
  /-- Whether the two ends round to the number too. -/
  closed : Bool

/-- The rounding interval of a finite, non-zero number. Below a power of two the neighbours are
half as far apart, except at the smallest exponent. -/
def interval (x : Binary64) : Interval :=
  let narrow := x.mantissa == 2 ^ 52 && 1 < x.exponentField
  let unit := Ratio.scaled 1 (x.exponent - 2)
  { low := (4 * x.mantissa - (if narrow then 1 else 2)) * unit.num
    middle := 4 * x.mantissa * unit.num
    high := (4 * x.mantissa + 2) * unit.num
    den := unit.den
    closed := x.mantissa % 2 == 0 }

/-- Whether the quotient `p / q` rounds to the number of the interval. -/
def Interval.holds (i : Interval) (p q : Nat) : Bool :=
  if i.closed then i.low * q ≤ p * i.den && p * i.den ≤ i.high * q
  else i.low * q < p * i.den && p * i.den < i.high * q

/-- `n * 10 ^ k` as a quotient. -/
def onGrid (n : Nat) (k : Int) : Ratio :=
  if 0 ≤ k then ⟨n * 10 ^ k.toNat, 1⟩ else ⟨n, 10 ^ (-k).toNat⟩

/-- The neighbour of the number on the grid of multiples of `10 ^ k` that reads back: the nearer
of the two, the upper one of two equally near; `none` if neither does. -/
def neighbour? (i : Interval) (k : Int) : Option Nat :=
  let step := onGrid 1 k
  let below := i.middle * step.den / (i.den * step.num)
  let lower := onGrid below k
  let upper := onGrid (below + 1) k
  match i.holds lower.num lower.den, i.holds upper.num upper.den with
  | false, false => none
  | true, false => some below
  | false, true => some (below + 1)
  | true, true =>
    let remainder := i.middle * step.den - below * (i.den * step.num)
    if 2 * remainder < i.den * step.num then some below else some (below + 1)

/-- The first neighbour that reads back, on grids of `count`, `count + 1`, … digits. -/
def search (i : Interval) (power : Int) : (fuel count : Nat) → Nat × Int
  | 0, _ => (0, 0)
  | fuel + 1, count =>
    let k := power - (count : Int) + 1
    match neighbour? i k with
    | some n => (n, k)
    | none => search i power fuel (count + 1)

/-- Drops trailing zeros, which the exponent `k` takes up. -/
def dropZeros : (fuel : Nat) → Nat → Int → Nat × Int
  | 0, n, k => (n, k)
  | fuel + 1, n, k =>
    if n ≠ 0 ∧ n % 10 = 0 then dropZeros fuel (n / 10) (k + 1) else (n, k)

/-- The shortest digits of a finite, non-zero number; seventeen always suffice. -/
def digits (x : Binary64) : Digits :=
  let (n, k) := search (interval x) (leadingPower x.magnitude) 18 1
  let (n, k) := dropZeros 18 n k
  { value := n, exponent := k + (digitCount n : Int) - 1 }

end Shortest

/-- Where a number text puts its decimal point. -/
structure NumberLayout where
  /-- The least exponent that is written without an exponent part. -/
  leastPositional : Int
  /-- The greatest exponent that is written without an exponent part. -/
  greatestPositional : Int

namespace NumberLayout

/-- The digits as they are written, at least one. -/
def digitChars (n : Nat) : List Char :=
  Nat.toDigits 10 n

/-- `d.ddd` shifted to its place, with at least one digit on either side of the point. -/
def positional (d : Digits) : List Char :=
  let ds := digitChars d.value
  if d.exponent < 0 then
    ['0', '.'] ++ List.replicate ((-d.exponent).toNat - 1) '0' ++ ds
  else
    let whole := d.exponent.toNat + 1
    let front := ds.take whole ++ List.replicate (whole - ds.length) '0'
    let back := ds.drop whole
    front ++ ['.'] ++ (if back.isEmpty then ['0'] else back)

/-- `d.dddeN`, without a point when there is one digit. -/
def scientific (d : Digits) : List Char :=
  let power := (toString d.exponent).toList
  match digitChars d.value with
  | first :: second :: rest => first :: '.' :: second :: rest ++ 'e' :: power
  | ds => ds ++ 'e' :: power

/-- The text of a number's shortest digits. -/
def format (layout : NumberLayout) (d : Digits) : List Char :=
  if layout.leastPositional ≤ d.exponent ∧ d.exponent ≤ layout.greatestPositional then
    positional d
  else scientific d

end NumberLayout

namespace Binary64

/-- Magnitudes from 0.0001 up to, not with, 10 ^ 16 are written without an exponent. -/
def layout : NumberLayout := ⟨-4, 15⟩

/-- The text of a number: its shortest digits, with a point unless it has an exponent. -/
def text (x : Binary64) : String :=
  if x.isNaN then "NaN"
  else
    let sign := if x.negative then "-" else ""
    if !x.isFinite then sign ++ "inf"
    else if x.mantissa = 0 then sign ++ "0.0"
    else sign ++ String.ofList (layout.format (Shortest.digits x))

end Binary64

end InteropGen

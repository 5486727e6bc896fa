import InteropGen.Proofs.Decimals.Shortest
import InteropGen.Proofs.Literals.Constants

/-!
# Decimal literals

A literal of C# whose suffix is `m` stands for a decimal number exactly: digits, maybe a point with
more digits, maybe a power of ten. The literals of binary64 numbers are such literals, and for a
number that is whole they stand for a shortest decimal of it, wherever the point is put.

* `decimalLiteral?` — the number that a literal stands for;
* `real?_format` — the digits of a whole number are read as the number, in any layout;
* `decimalLiteral?_floatLiteral` — the literal of a binary64 number that is whole.
-/

set_option autoImplicit false

namespace InteropGen

open Binary64

/-! ## Reading -/

/-- The text before a mark, and the text behind it if the mark is there. -/
def cutAt (mark : Char) : List Char → List Char × Option (List Char)
  | [] => ([], none)
  | c :: rest =>
    if c = mark then ([], some rest)
    else
      let (before, behind) := cutAt mark rest
      (c :: before, behind)

/-- The number that digits spell, some of them maybe behind a point. -/
def pointed? (text : List Char) : Option ℚ :=
  match cutAt '.' text with
  | (whole, none) => (digits? whole).map fun n : Nat => (n : ℚ)
  | (whole, some fraction) =>
    match digits? whole, digits? fraction with
    | some n, some part => some (n + part / 10 ^ fraction.length)
    | _, _ => none

/-- The number of such digits, maybe times a power of ten. -/
def real? (text : List Char) : Option ℚ :=
  match cutAt 'e' text with
  | (number, none) => pointed? number
  | (number, some power) =>
    match pointed? number, decimal? power with
    | some r, some k => some (r * 10 ^ k)
    | _, _ => none

/-- The number that a literal of type `decimal` stands for. Of the spellings of C#, the ones that are
read have small letters, a digit on either side of a point, and no plus sign. -/
def decimalLiteral? (text : List Char) : Option ℚ :=
  if text.getLast? = some 'm' then
    match text.dropLast with
    | '-' :: number => (real? number).map fun r => -r
    | number => real? number
  else none

theorem cutAt_of_notMem {mark : Char} {text : List Char} (h : mark ∉ text) :
    cutAt mark text = (text, none) := by
  induction text with
  | nil => rfl
  | cons c rest ih =>
    obtain ⟨hc, hrest⟩ := not_or.mp (mt List.mem_cons.mpr h)
    rw [cutAt, if_neg (Ne.symm hc), ih hrest]

theorem cutAt_append {mark : Char} {before : List Char} (h : mark ∉ before)
    (behind : List Char) : cutAt mark (before ++ mark :: behind) = (before, some behind) := by
  induction before with
  | nil => exact if_pos rfl
  | cons c rest ih =>
    obtain ⟨hc, hrest⟩ := not_or.mp (mt List.mem_cons.mpr h)
    rw [List.cons_append, cutAt, if_neg (Ne.symm hc), ih hrest]

/-- At least one digit, and nothing else. -/
def IsNumeral (chars : List Char) : Prop :=
  chars ≠ [] ∧ ∀ c ∈ chars, c.isDigit

namespace IsNumeral

variable {chars : List Char}

theorem digits? (h : IsNumeral chars) : digits? chars = some (Nat.ofDigitChars 10 chars 0) :=
  if_pos ⟨h.1, List.all_eq_true.mpr h.2⟩

theorem notMem (h : IsNumeral chars) {mark : Char} (hmark : mark.isDigit = false) :
    mark ∉ chars := fun hmem => by
  have hdigit := h.2 mark hmem
  rw [hmark] at hdigit
  cases hdigit

theorem toDigits (n : Nat) : IsNumeral (Nat.toDigits 10 n) :=
  ⟨Nat.toDigits_ne_nil, fun _ hc => Nat.isDigit_of_mem_toDigits (by decide) (by decide) hc⟩

theorem append_zeros (h : IsNumeral chars) (z : Nat) : IsNumeral (chars ++ List.replicate z '0') := by
  refine ⟨fun hnil => h.1 (List.append_eq_nil_iff.mp hnil).1, fun c hc => ?_⟩
  obtain hc | hc := List.mem_append.mp hc
  · exact h.2 c hc
  · rw [List.eq_of_mem_replicate hc]
    decide

theorem pointed? (h : IsNumeral chars) :
    pointed? chars = some (Nat.ofDigitChars 10 chars 0 : ℚ) := by
  have hmark : '.' ∉ chars := h.notMem rfl
  simp only [InteropGen.pointed?, cutAt_of_notMem hmark, h.digits?, Option.map_some]

theorem pointed?_fraction (h : IsNumeral chars) {fraction : List Char}
    (hfraction : IsNumeral fraction) :
    InteropGen.pointed? (chars ++ '.' :: fraction) =
      some (Nat.ofDigitChars 10 chars 0 +
        Nat.ofDigitChars 10 fraction 0 / 10 ^ fraction.length : ℚ) := by
  have hmark : '.' ∉ chars := h.notMem rfl
  simp only [InteropGen.pointed?, cutAt_append hmark, h.digits?, hfraction.digits?]

end IsNumeral

theorem real?_of_notMem {number : List Char} (h : 'e' ∉ number) :
    real? number = pointed? number := by
  rw [real?, cutAt_of_notMem h]

theorem real?_power {number : List Char} (h : 'e' ∉ number) {r : ℚ}
    (hnumber : pointed? number = some r) (k : Int) :
    real? (number ++ 'e' :: (toString k).toList) = some (r * 10 ^ k) := by
  simp only [real?, cutAt_append h, hnumber, decimal?_toString]

/-! ## The layouts of a number -/

namespace NumberLayout

open Shortest

/-- The digits of a number that is whole, with `z` zeros at the end. -/
def wholeDigits (n z : Nat) : Digits :=
  ⟨n, z + (digitCount n : Int) - 1⟩

theorem positional_wholeDigits (n z : Nat) :
    positional (wholeDigits n z) = (Nat.toDigits 10 n ++ List.replicate z '0') ++ ['.', '0'] := by
  have hcount := digitCount_pos n
  have hlength : (Nat.toDigits 10 n).length = digitCount n := rfl
  have hplaces : ((z : Int) + digitCount n - 1).toNat + 1 = digitCount n + z := by omega
  simp only [positional, wholeDigits, digitChars, hplaces]
  rw [if_neg (by omega), List.take_of_length_le (by omega), List.drop_of_length_le (by omega),
    hlength, Nat.add_sub_cancel_left]
  simp

/-- In a layout without a power of ten the number is read back. -/
theorem real?_positional (n z : Nat) :
    real? (positional (wholeDigits n z)) = some ((n * 10 ^ z : Nat) : ℚ) := by
  have hwhole := (IsNumeral.toDigits n).append_zeros z
  have hzero : IsNumeral ['0'] := ⟨nofun, List.forall_mem_singleton.mpr rfl⟩
  have hvalue : Nat.ofDigitChars 10 (Nat.toDigits 10 n ++ List.replicate z '0') 0 = n * 10 ^ z := by
    rw [Nat.ofDigitChars_append, Nat.ofDigitChars_ten_toDigits, Nat.ofDigitChars_replicate_zero,
      Nat.mul_comm]
  have hmark : 'e' ∉ (Nat.toDigits 10 n ++ List.replicate z '0') ++ ['.', '0'] := by
    rw [List.mem_append, not_or]
    exact ⟨hwhole.notMem (by decide), by decide⟩
  rw [positional_wholeDigits, real?_of_notMem hmark, hwhole.pointed?_fraction hzero, hvalue]
  simp [Nat.ofDigitChars]

/-- With the point behind the first digit, and a power of ten, it is too. -/
theorem real?_scientific (n z : Nat) :
    real? (scientific (wholeDigits n z)) = some ((n * 10 ^ z : Nat) : ℚ) := by
  have hnumeral := IsNumeral.toDigits n
  have hvalue : Nat.ofDigitChars 10 (Nat.toDigits 10 n) 0 = n := Nat.ofDigitChars_ten_toDigits
  have hcount : digitCount n = (Nat.toDigits 10 n).length := rfl
  simp only [scientific, wholeDigits, digitChars, hcount]
  generalize Nat.toDigits 10 n = chars at hnumeral hvalue ⊢
  match chars with
  | [] => exact absurd rfl hnumeral.1
  | [first] =>
    rw [real?_power (hnumeral.notMem rfl) hnumeral.pointed?, hvalue]
    simp
  | first :: second :: rest =>
    have hfirst : IsNumeral [first] := ⟨nofun, fun c hc => hnumeral.2 c (by simp_all)⟩
    have hrest : IsNumeral (second :: rest) := ⟨nofun, fun c hc => hnumeral.2 c (.tail _ hc)⟩
    have hmark : 'e' ∉ [first] ++ '.' :: second :: rest := by
      have hbefore : 'e' ∉ [first] := hfirst.notMem rfl
      have hbehind : 'e' ∉ second :: rest := hrest.notMem rfl
      simp_all
    have hpower : (z : Int) + (first :: second :: rest).length - 1 =
        ((z + (second :: rest).length : Nat) : Int) := by
      push_cast [List.length_cons]
      ring
    have hsplit : n = 10 ^ (second :: rest).length * Nat.ofDigitChars 10 [first] 0 +
        Nat.ofDigitChars 10 (second :: rest) 0 := by
      rw [← hvalue, ← Nat.ofDigitChars_eq_ofDigitChars_zero, ← Nat.ofDigitChars_append]
      rfl
    have hread := real?_power hmark (hfirst.pointed?_fraction hrest)
      ((z + (second :: rest).length : Nat) : Int)
    rw [hpower]
    refine hread.trans (congrArg some ?_)
    rw [zpow_natCast, hsplit]
    push_cast
    field_simp
    ring

theorem real?_format (layout : NumberLayout) (n z : Nat) :
    real? (layout.format (wholeDigits n z)) = some ((n * 10 ^ z : Nat) : ℚ) := by
  unfold format
  split
  · exact real?_positional n z
  · exact real?_scientific n z

/-- A point or a power of ten is always written. -/
theorem mem_format (layout : NumberLayout) (d : Digits) :
    '.' ∈ layout.format d ∨ 'e' ∈ layout.format d := by
  unfold format
  split
  · left
    unfold positional
    split <;> simp
  · right
    unfold scientific
    split <;> simp

end NumberLayout

/-! ## The literals of binary64 numbers -/

/-- A number begins with a digit. -/
theorem real?_minus (number : List Char) : real? ('-' :: number) = none := by
  have hdigits : ∀ rest, digits? ('-' :: rest) = none := fun rest =>
    if_neg fun h => absurd (List.all_eq_true.mp h.2 '-' List.mem_cons_self) (by decide)
  have hcut : ∀ mark : Char, '-' ≠ mark → ∀ rest : List Char,
      cutAt mark ('-' :: rest) = ('-' :: (cutAt mark rest).1, (cutAt mark rest).2) :=
    fun mark hmark rest => if_neg hmark
  have hpointed : ∀ rest, pointed? ('-' :: rest) = none := fun rest => by
    rw [pointed?, hcut '.' (by decide)]
    cases (cutAt '.' rest).2 <;> simp only [hdigits, Option.map_none]
  rw [real?, hcut 'e' (by decide)]
  cases (cutAt 'e' number).2 <;> simp only [hpointed]

section
variable {number : List Char} {r : ℚ}

theorem decimalLiteral?_positive (h : real? number = some r) :
    decimalLiteral? (number ++ ['m']) = some r := by
  rw [decimalLiteral?, if_pos List.getLast?_concat, List.dropLast_concat]
  split
  · rw [real?_minus] at h
    cases h
  · exact h

theorem decimalLiteral?_negative (h : real? number = some r) :
    decimalLiteral? ('-' :: number ++ ['m']) = some (-r) := by
  rw [decimalLiteral?, if_pos List.getLast?_concat, List.dropLast_concat]
  simp only [h, Option.map_some]

end

section
variable {x : Binary64} {v : Nat}

/-- The literal of a number that is not zero is its digits in its layout. -/
theorem toList_floatLiteral (hx : x.IsNormal) (hfinite : x.isFinite) (suffix : String) :
    (CSharp.floatLiteral x suffix).toList =
      (if x.negative then ['-'] else []) ++ Binary64.layout.format (Shortest.digits x) ++
        suffix.toList := by
  have hmantissa : x.mantissa ≠ 0 := by
    have := hx.le_mantissa
    omega
  have htext : x.text.toList =
      (if x.negative then ['-'] else []) ++ Binary64.layout.format (Shortest.digits x) := by
    have hnumber : x.isNaN = false := by
      have hfield : x.exponentField ≠ 2047 := by simpa [isFinite] using hfinite
      simp [isNaN, hfield]
    simp only [Binary64.text, hnumber, hfinite, hmantissa, Bool.not_true, Bool.false_eq_true,
      if_false, String.toList_append, String.toList_ofList]
    cases x.negative <;> rfl
  have hmarked : (x.text.toList.any fun c => c = '.' || c = 'e' || c = 'E') = true := by
    rw [htext, List.any_eq_true]
    obtain hpoint | hpower := Binary64.layout.mem_format (Shortest.digits x)
    · exact ⟨'.', List.mem_append_right _ hpoint, rfl⟩
    · exact ⟨'e', List.mem_append_right _ hpower, rfl⟩
  have hliteral : CSharp.floatLiteral x suffix = x.text ++ suffix :=
    congrArg (fun text => text ++ suffix) (if_pos hmarked)
  rw [hliteral, String.toList_append, htext]

/-- **Literals of decimal numbers.** The literal of a number that is whole stands for a shortest
decimal of it, with its sign. -/
theorem decimalLiteral?_floatLiteral (hx : x.IsNormal) (hfinite : x.isFinite)
    (hv : x.absolute = v) :
    ∃ j : Int, decimalLiteral? (CSharp.floatLiteral x "m").toList = some (j : ℚ) ∧
      (j < 0 ↔ x.negative) ∧ Shortest.IsShortest x j.natAbs := by
  obtain ⟨n, z, hdigits, hshortest⟩ := Shortest.digits_spec hx hv
  have hpos : 0 < n * 10 ^ z := by
    have := hx.pos_of_near hshortest.near
    exact_mod_cast this
  have hread := Binary64.layout.real?_format n z
  rw [NumberLayout.wholeDigits, ← hdigits] at hread
  rw [toList_floatLiteral hx hfinite]
  generalize n * 10 ^ z = number at hshortest hpos hread
  cases x.negative with
  | false =>
    refine ⟨number, ?_, by simp, by simpa using hshortest⟩
    exact decimalLiteral?_positive hread
  | true =>
    refine ⟨-number, ?_, by simpa using hpos, by simpa using hshortest⟩
    push_cast
    exact decimalLiteral?_negative hread

end

end InteropGen

import Mathlib.Tactic.FieldSimp
import InteropGen.Proofs.Literals.Numbers

/-!
# Rounding of whole numbers

A binary64 number is the nearest one to all numbers of an interval around it. The interval is closed
if the mantissa is even and open if it is odd, so that the intervals of different numbers have
nothing in common.

* `Binary64.Near` — the interval of a number;
* `Binary64.near_unique` — no two numbers share a point of their intervals;
* `Binary64.near_ofRatio` — a whole number lies in the interval of what it is rounded to;
* `Binary64.ofInt_eq_iff` — which whole numbers are rounded to the same number.
-/

set_option autoImplicit false

namespace InteropGen.Binary64

/-! ## The interval of a number -/

/-- A quarter of the distance to the next greater number. -/
def quarter (x : Binary64) : ℚ :=
  2 ^ (x.exponent - 2)

/-- How many quarters the interval reaches down. Below a power of two the numbers are half as far
apart. -/
def quartersDown (x : Binary64) : Nat :=
  if x.mantissa = 2 ^ 52 ∧ 1 < x.exponentField then 1 else 2

def lowEnd (x : Binary64) : ℚ :=
  x.absolute - x.quartersDown * x.quarter

def highEnd (x : Binary64) : ℚ :=
  x.absolute + 2 * x.quarter

/-- The absolute value of the number is the nearest to `r`. -/
def Near (x : Binary64) (r : ℚ) : Prop :=
  if x.mantissa % 2 = 0 then x.lowEnd ≤ r ∧ r ≤ x.highEnd else x.lowEnd < r ∧ r < x.highEnd

theorem quarter_pos (x : Binary64) : 0 < x.quarter :=
  zpow_pos two_pos _

theorem four_mul_quarter (x : Binary64) : 4 * x.quarter = 2 ^ x.exponent := by
  have hfour : (4 : ℚ) = 2 ^ (2 : ℤ) := by norm_num
  rw [quarter, hfour, ← zpow_add₀ two_ne_zero]
  congr 1
  omega

theorem absolute_eq_quarters (x : Binary64) : x.absolute = 4 * x.mantissa * x.quarter := by
  rw [absolute_eq, ← four_mul_quarter]
  ring

theorem lowEnd_eq (x : Binary64) :
    x.lowEnd = (4 * x.mantissa - x.quartersDown) * x.quarter := by
  rw [lowEnd, absolute_eq_quarters]
  ring

theorem highEnd_eq (x : Binary64) : x.highEnd = (4 * x.mantissa + 2) * x.quarter := by
  rw [highEnd, absolute_eq_quarters]
  ring

theorem one_le_quartersDown (x : Binary64) : (1 : ℚ) ≤ x.quartersDown := by
  unfold quartersDown
  split <;> norm_num

theorem quartersDown_le_two (x : Binary64) : (x.quartersDown : ℚ) ≤ 2 := by
  unfold quartersDown
  split <;> norm_num

theorem lowEnd_lt (x : Binary64) : x.lowEnd < x.absolute := by
  have hdown : 0 < x.quartersDown * x.quarter :=
    mul_pos (by linarith [x.one_le_quartersDown]) x.quarter_pos
  unfold lowEnd
  linarith

theorem lt_highEnd (x : Binary64) : x.absolute < x.highEnd := by
  have := x.quarter_pos
  unfold highEnd
  linarith

theorem lowEnd_of_mantissa_ne {x : Binary64} (h : x.mantissa ≠ 2 ^ 52) :
    x.lowEnd = x.absolute - 2 * x.quarter := by
  rw [lowEnd, quartersDown, if_neg fun hboth => h hboth.1]
  norm_num

theorem Near.bounds {x : Binary64} {r : ℚ} (h : x.Near r) : x.lowEnd ≤ r ∧ r ≤ x.highEnd := by
  unfold Near at h
  split at h
  · exact h
  · exact ⟨h.1.le, h.2.le⟩

/-- What lies strictly inside the interval is near. -/
theorem near_of_lt {x : Binary64} {r : ℚ} (hlow : x.lowEnd < r) (hhigh : r < x.highEnd) :
    x.Near r := by
  unfold Near
  split
  · exact ⟨hlow.le, hhigh.le⟩
  · exact ⟨hlow, hhigh⟩

theorem near_absolute (x : Binary64) : x.Near x.absolute :=
  near_of_lt x.lowEnd_lt x.lt_highEnd

/-- What lies between two points of the interval lies in it. -/
theorem Near.between {x : Binary64} {a b r : ℚ} (ha : x.Near a) (hb : x.Near b) (har : a ≤ r)
    (hrb : r ≤ b) : x.Near r := by
  unfold Near at ha hb ⊢
  split_ifs at ha hb ⊢
  · exact ⟨ha.1.trans har, hrb.trans hb.2⟩
  · exact ⟨ha.1.trans_le har, hrb.trans_lt hb.2⟩

theorem Near.distance_le {x : Binary64} {r : ℚ} (h : x.Near r) :
    |r - x.absolute| ≤ 2 * x.quarter := by
  have hdown := mul_le_mul_of_nonneg_right x.quartersDown_le_two x.quarter_pos.le
  obtain ⟨hlow, hhigh⟩ := h.bounds
  unfold lowEnd at hlow
  unfold highEnd at hhigh
  exact abs_le.mpr ⟨by linarith, by linarith⟩

/-- A number is the nearest to what is at most two quarters away: less than two if its mantissa is
odd, and one on the way down to the next smaller power of two. -/
theorem near_of_distance {x : Binary64} {r : ℚ} (hhalf : |r - x.absolute| ≤ 2 * x.quarter)
    (hodd : x.mantissa % 2 = 1 → |r - x.absolute| < 2 * x.quarter)
    (hpower : x.mantissa = 2 ^ 52 → x.absolute - r ≤ x.quarter) : x.Near r := by
  obtain ⟨hdown, hup⟩ := abs_le.mp hhalf
  unfold Near
  split
  · refine ⟨?_, by unfold highEnd; linarith⟩
    by_cases hleast : x.mantissa = 2 ^ 52
    · have hquarter := mul_le_mul_of_nonneg_right x.one_le_quartersDown x.quarter_pos.le
      unfold lowEnd
      linarith [hpower hleast]
    · rw [lowEnd_of_mantissa_ne hleast]
      linarith
  · obtain ⟨hdown, hup⟩ := abs_lt.mp (hodd (by omega))
    rw [lowEnd_of_mantissa_ne (by omega), highEnd]
    exact ⟨by linarith, by linarith⟩

/-- The interval is no wider than the distance to the next greater number. -/
theorem Near.sub_le {x : Binary64} {a b : ℚ} (ha : x.Near a) (hb : x.Near b) :
    b - a ≤ 4 * x.quarter := by
  have hlow := (abs_le.mp ha.distance_le).1
  have hhigh := (abs_le.mp hb.distance_le).2
  linarith

/-! ## Numbers with a leading one -/

/-- The number has a leading one: it is neither zero nor so small that it has none. -/
def IsNormal (x : Binary64) : Prop :=
  x.exponentField ≠ 0

theorem mantissa_lt (x : Binary64) : x.mantissa < 2 ^ 53 := by
  have hfraction : x.fraction < 2 ^ 52 := Nat.mod_lt _ (by decide)
  unfold mantissa
  split <;> omega

theorem IsNormal.le_mantissa {x : Binary64} (h : x.IsNormal) : 2 ^ 52 ≤ x.mantissa := by
  rw [mantissa, if_neg h]
  omega

/-- The number has at least `2 ^ 54` quarters. -/
theorem IsNormal.quarter_le {x : Binary64} (h : x.IsNormal) : 2 ^ 54 * x.quarter ≤ x.absolute := by
  have hmantissa : (2 : ℚ) ^ 52 ≤ x.mantissa := by exact_mod_cast h.le_mantissa
  have hquarters := mul_le_mul_of_nonneg_right hmantissa x.quarter_pos.le
  rw [absolute_eq_quarters]
  linarith

/-- What rounds to the number is at least all but two of its quarters. -/
theorem IsNormal.quarter_le_of_near {x : Binary64} (hx : x.IsNormal) {r : ℚ} (hr : x.Near r) :
    (2 ^ 54 - 2) * x.quarter ≤ r := by
  have hlow := (abs_le.mp hr.distance_le).1
  linarith [hx.quarter_le]

theorem IsNormal.pos_of_near {x : Binary64} (hx : x.IsNormal) {r : ℚ} (hr : x.Near r) :
    0 < r := by
  have := hx.quarter_le_of_near hr
  linarith [x.quarter_pos]

/-- What rounds to the same number is not apart by more than a factor of two. -/
theorem IsNormal.le_two_mul_of_near {x : Binary64} (hx : x.IsNormal) {a b : ℚ} (ha : x.Near a)
    (hb : x.Near b) : b ≤ 2 * a := by
  have hquarter := hx.quarter_le_of_near ha
  have hdistance := ha.sub_le hb
  linarith [x.quarter_pos]

/-- Sign, mantissa and exponent are the number. -/
theorem IsNormal.ext {x y : Binary64} (hx : x.IsNormal) (hy : y.IsNormal)
    (hsign : x.negative = y.negative) (hmantissa : x.mantissa = y.mantissa)
    (hexponent : x.exponent = y.exponent) : x = y := by
  have hbits : x.bits.toNat = y.bits.toNat := by
    unfold IsNormal at hx hy
    rw [mantissa, mantissa, if_neg hx, if_neg hy] at hmantissa
    unfold exponent at hexponent
    unfold exponentField at hx hy hexponent
    unfold fraction at hmantissa
    rw [negative, negative, decide_eq_decide] at hsign
    have hxbits := x.bits.toNat_lt
    have hybits := y.bits.toNat_lt
    omega
  cases x
  cases y
  exact congrArg mk (UInt64.toNat_inj.mp hbits)

/-- The interval begins one quarter below the least number of the exponent, or higher up. -/
theorem IsNormal.le_lowEnd {x : Binary64} (hx : x.IsNormal) (hfield : 1 < x.exponentField) :
    (2 ^ 54 - 1) * x.quarter ≤ x.lowEnd := by
  rw [lowEnd_eq]
  refine mul_le_mul_of_nonneg_right ?_ x.quarter_pos.le
  obtain hmore | hleast := Nat.lt_or_eq_of_le hx.le_mantissa
  · have hmantissa : (2 : ℚ) ^ 52 + 1 ≤ x.mantissa := by exact_mod_cast hmore
    linarith [x.quartersDown_le_two]
  · rw [quartersDown, if_pos ⟨hleast.symm, hfield⟩, ← hleast]
    norm_num

/-- The interval of a number with a greater exponent begins where that of one with a smaller exponent
ends, or later. Where it begins there, the mantissa of the latter is odd. -/
theorem highEnd_lt_of_exponent_lt {x y : Binary64} (hy : y.IsNormal) (h : x.exponent < y.exponent) :
    x.highEnd < y.lowEnd ∨ (x.highEnd ≤ y.lowEnd ∧ x.mantissa % 2 = 1) := by
  have hpos := x.quarter_pos
  have hquarter : 2 * x.quarter ≤ y.quarter := by
    unfold quarter
    rw [← zpow_one_add₀ two_ne_zero]
    exact zpow_le_zpow_right₀ (by norm_num) (by omega)
  have hfield : 1 < y.exponentField := by
    unfold exponent at h
    unfold IsNormal at hy
    omega
  have hstart : (2 ^ 55 - 2) * x.quarter ≤ y.lowEnd := by
    linarith [hy.le_lowEnd hfield]
  rw [highEnd_eq]
  by_cases hlast : x.mantissa = 2 ^ 53 - 1
  · refine .inr ⟨?_, by omega⟩
    have hvalue : (x.mantissa : ℚ) = 2 ^ 53 - 1 := by
      rw [hlast]
      norm_num
    rw [hvalue]
    linarith
  · refine .inl ?_
    have hle : (x.mantissa : ℚ) + 2 ≤ 2 ^ 53 := by
      have := x.mantissa_lt
      exact_mod_cast (by omega : x.mantissa + 2 ≤ 2 ^ 53)
    nlinarith

/-- The same for two numbers with one exponent. -/
theorem highEnd_lt_of_mantissa_lt {x y : Binary64} (hx : x.IsNormal)
    (hexponent : x.exponent = y.exponent) (h : x.mantissa < y.mantissa) :
    x.highEnd < y.lowEnd ∨ (x.highEnd ≤ y.lowEnd ∧ x.mantissa % 2 ≠ y.mantissa % 2) := by
  have hquarter : y.quarter = x.quarter := by rw [quarter, quarter, hexponent]
  have hpos := x.quarter_pos
  have hdown : y.quartersDown = 2 := by
    have := hx.le_mantissa
    exact if_neg fun hleast => by omega
  rw [lowEnd_eq, highEnd_eq, hdown, hquarter, Nat.cast_two]
  by_cases hnext : y.mantissa = x.mantissa + 1
  · refine .inr ⟨le_of_eq ?_, by omega⟩
    rw [hnext]
    push_cast
    ring
  · refine .inl ?_
    have hle : (x.mantissa : ℚ) + 2 ≤ y.mantissa := by
      exact_mod_cast (by omega : x.mantissa + 2 ≤ y.mantissa)
    nlinarith

/-- Intervals that have at most an end in common, and not both of them closed, share no point. -/
theorem not_near_of_highEnd {x y : Binary64} {r : ℚ}
    (h : x.highEnd < y.lowEnd ∨
      (x.highEnd ≤ y.lowEnd ∧ (x.mantissa % 2 = 1 ∨ y.mantissa % 2 = 1))) :
    ¬ (x.Near r ∧ y.Near r) := by
  rintro ⟨hx, hy⟩
  obtain hapart | ⟨htouch, hodd⟩ := h
  · linarith [hx.bounds.2, hy.bounds.1]
  · obtain hodd | hodd := hodd
    · rw [Near, if_neg (by omega)] at hx
      linarith [hx.2, hy.bounds.1]
    · rw [Near, if_neg (by omega)] at hy
      linarith [hx.bounds.2, hy.1]

/-- No two numbers are nearest to the same point. -/
theorem near_unique {x y : Binary64} (hx : x.IsNormal) (hy : y.IsNormal) {r : ℚ} (hxr : x.Near r)
    (hyr : y.Near r) : x.mantissa = y.mantissa ∧ x.exponent = y.exponent := by
  have hexponent : ∀ {x y : Binary64}, y.IsNormal → x.Near r → y.Near r →
      ¬ x.exponent < y.exponent := fun hy hxr hyr h =>
    not_near_of_highEnd
      ((highEnd_lt_of_exponent_lt hy h).imp_right (And.imp_right .inl)) ⟨hxr, hyr⟩
  have hmantissa : ∀ {x y : Binary64}, x.IsNormal → x.exponent = y.exponent → x.Near r →
      y.Near r → ¬ x.mantissa < y.mantissa := fun hx heq hxr hyr h =>
    not_near_of_highEnd
      ((highEnd_lt_of_mantissa_lt hx heq h).imp_right (And.imp_right (by omega))) ⟨hxr, hyr⟩
  have heq : x.exponent = y.exponent := by
    have := hexponent hy hxr hyr
    have := hexponent hx hyr hxr
    omega
  refine ⟨?_, heq⟩
  have := hmantissa hx heq hxr hyr
  have := hmantissa hy heq.symm hyr hxr
  omega

/-! ## Rounding whole numbers -/

theorem div_le_roundEven (num den : Nat) : num / den ≤ roundEven num den := by
  simp only [roundEven]
  split
  · omega
  · split <;> omega

/-- The rounded quotient is at most one half away, and less if it is odd. -/
theorem roundEven_spec (num : Nat) {den : Nat} (hden : 0 < den) :
    2 * (roundEven num den * den) ≤ 2 * num + den ∧ 2 * num ≤ 2 * (roundEven num den * den) + den ∧
      (roundEven num den % 2 = 1 →
        2 * (roundEven num den * den) < 2 * num + den ∧
          2 * num < 2 * (roundEven num den * den) + den) := by
  have hdivision : num / den * den + num % den = num := Nat.div_add_mod' num den
  have hremainder : num % den < den := Nat.mod_lt _ hden
  have hsucc : (num / den + 1) * den = num / den * den + den := Nat.succ_mul _ _
  simp only [roundEven]
  split
  · omega
  · split
    · rw [hsucc]
      omega
    · obtain heven | hodd : num / den % 2 = 0 ∨ num / den % 2 = 1 := by omega
      · rw [heven, Nat.add_zero]
        omega
      · rw [hodd, hsucc]
        omega

theorem roundEven_distance (num : Nat) {den : Nat} (hden : 0 < den) :
    |(num : ℚ) - (roundEven num den * den : Nat)| ≤ den / 2 ∧
      (roundEven num den % 2 = 1 → |(num : ℚ) - (roundEven num den * den : Nat)| < den / 2) := by
  obtain ⟨hdown, hup, hodd⟩ := roundEven_spec num hden
  generalize roundEven num den * den = rounded at hdown hup hodd ⊢
  constructor
  · have hdown' : 2 * (rounded : ℚ) ≤ 2 * num + den := by exact_mod_cast hdown
    have hup' : 2 * (num : ℚ) ≤ 2 * rounded + den := by exact_mod_cast hup
    exact abs_le.mpr ⟨by linarith, by linarith⟩
  · intro hparity
    obtain ⟨hdown, hup⟩ := hodd hparity
    have hdown' : 2 * (rounded : ℚ) < 2 * num + den := by exact_mod_cast hdown
    have hup' : 2 * (num : ℚ) < 2 * rounded + den := by exact_mod_cast hup
    exact abs_lt.mpr ⟨by linarith, by linarith⟩

theorem roundEven_one (num : Nat) : roundEven num 1 = num := by
  have h := roundEven_spec num Nat.one_pos
  omega

/-- The mantissa of a whole number before a carry: the number with its leading digit moved to the
place of `2 ^ 52`. -/
def leadingMantissa (n : Nat) : Nat :=
  if Nat.log2 n ≤ 52 then n * 2 ^ (52 - Nat.log2 n) else roundEven n (2 ^ (Nat.log2 n - 52))

theorem leadingMantissa_of_le {n : Nat} (h : Nat.log2 n ≤ 52) :
    leadingMantissa n = n * 2 ^ (52 - Nat.log2 n) :=
  if_pos h

theorem leadingMantissa_of_lt {n : Nat} (h : 52 < Nat.log2 n) :
    leadingMantissa n = roundEven n (2 ^ (Nat.log2 n - 52)) :=
  if_neg (by omega)

theorem leadingMantissa_bounds {n : Nat} (hn : n ≠ 0) :
    2 ^ 52 ≤ leadingMantissa n ∧ leadingMantissa n ≤ 2 ^ 53 := by
  have hlow : 2 ^ Nat.log2 n ≤ n := Nat.log2_self_le hn
  have hhigh : n < 2 ^ (Nat.log2 n + 1) := Nat.lt_log2_self
  obtain hlarge | hsmall := Nat.lt_or_ge 52 (Nat.log2 n)
  · rw [leadingMantissa_of_lt hlarge]
    have hpow : ∀ k, 2 ^ (52 + k) * 2 ^ (Nat.log2 n - 52) = 2 ^ (Nat.log2 n + k) := fun k => by
      rw [← Nat.pow_add]
      congr 1
      omega
    have hpos : 0 < 2 ^ (Nat.log2 n - 52) := Nat.two_pow_pos _
    constructor
    · refine Nat.le_trans ?_ (div_le_roundEven _ _)
      rw [Nat.le_div_iff_mul_le hpos]
      exact (hpow 0).le.trans hlow
    · have hquotient : n / 2 ^ (Nat.log2 n - 52) < 2 ^ 53 := by
        rw [Nat.div_lt_iff_lt_mul hpos]
        exact hhigh.trans_eq (hpow 1).symm
      have := roundEven_le n (2 ^ (Nat.log2 n - 52))
      omega
  · rw [leadingMantissa_of_le hsmall]
    have hpow : 2 ^ Nat.log2 n * 2 ^ (52 - Nat.log2 n) = 2 ^ 52 := by
      rw [← Nat.pow_add]
      congr 1
      omega
    constructor
    · calc 2 ^ 52 = 2 ^ Nat.log2 n * 2 ^ (52 - Nat.log2 n) := hpow.symm
        _ ≤ n * 2 ^ (52 - Nat.log2 n) := Nat.mul_le_mul_right _ hlow
    · calc n * 2 ^ (52 - Nat.log2 n)
          ≤ 2 ^ (Nat.log2 n + 1) * 2 ^ (52 - Nat.log2 n) := Nat.mul_le_mul_right _ hhigh.le
        _ = 2 ^ 53 := by rw [Nat.pow_succ, Nat.mul_right_comm, hpow, ← Nat.pow_succ]

theorem ofRatio_natural (negative : Bool) {n : Nat} (hn : n ≠ 0) :
    ofRatio negative ⟨n, 1⟩ =
      ofParts negative (min ((Nat.log2 n + 1022) * 2 ^ 52 + leadingMantissa n) infinityBits) := by
  have hunit : max (leadingExponent ⟨n, 1⟩ - 52) (-1074) = (Nat.log2 n : Int) - 52 := by
    rw [leadingExponent_natural hn]
    omega
  have hfield : ((Nat.log2 n : Int) - 52 + 1074).toNat = Nat.log2 n + 1022 := by omega
  simp only [ofRatio, if_neg hn, hunit, hfield]
  congr 3
  obtain hlarge | hsmall := Nat.lt_or_ge 52 (Nat.log2 n)
  · have hshift : ((Nat.log2 n : Int) - 52).toNat = Nat.log2 n - 52 := by omega
    rw [leadingMantissa_of_lt hlarge, if_pos (by omega), hshift, Nat.one_mul]
  · rw [leadingMantissa_of_le hsmall]
    have hshift : (-((Nat.log2 n : Int) - 52)).toNat = 52 - Nat.log2 n := by omega
    obtain hless | heq := Nat.lt_or_eq_of_le hsmall
    · rw [if_neg (by omega), hshift, roundEven_one]
    · simp [heq, roundEven_one]

theorem negative_ofParts (negative : Bool) {low : Nat} (h : low < 2 ^ 63) :
    (ofParts negative low).negative = negative := by
  cases negative <;>
    simp only [Binary64.negative, ofParts, UInt64.toNat_ofNat', Bool.false_eq_true, if_false,
      if_true, decide_eq_true_eq, decide_eq_false_iff_not] <;>
    omega

theorem fraction_ofParts (negative : Bool) (low : Nat) :
    (ofParts negative low).fraction = low % 2 ^ 52 := by
  cases negative <;>
    simp only [fraction, ofParts, UInt64.toNat_ofNat', Bool.false_eq_true, if_false, if_true] <;>
    omega

section
variable {negative : Bool} {n : Nat}

/-- What a whole number is rounded to, unless it is too large. A mantissa that is carried to
`2 ^ 53` moves into the exponent. -/
theorem fields_ofRatio (hn : n ≠ 0) (hfinite : (ofRatio negative ⟨n, 1⟩).isFinite) :
    (ofRatio negative ⟨n, 1⟩).negative = negative ∧ (ofRatio negative ⟨n, 1⟩).IsNormal ∧
      (((ofRatio negative ⟨n, 1⟩).mantissa = leadingMantissa n ∧
          (ofRatio negative ⟨n, 1⟩).exponent = Nat.log2 n - 52) ∨
        (leadingMantissa n = 2 ^ 53 ∧ (ofRatio negative ⟨n, 1⟩).mantissa = 2 ^ 52 ∧
          (ofRatio negative ⟨n, 1⟩).exponent = Nat.log2 n - 51)) := by
  obtain ⟨hleast, hmost⟩ := leadingMantissa_bounds hn
  rw [ofRatio_natural negative hn] at hfinite ⊢
  generalize leadingMantissa n = m at hleast hmost hfinite ⊢
  generalize Nat.log2 n = e at hfinite ⊢
  have hfits : (e + 1022) * 2 ^ 52 + m < infinityBits := by
    by_contra hlarge
    rw [Nat.min_eq_right (by omega), isFinite, exponentField_ofParts _ (by decide)] at hfinite
    exact absurd hfinite (by decide)
  have hword : (e + 1022) * 2 ^ 52 + m < 2 ^ 63 := hfits.trans (by decide)
  have hfield := exponentField_ofParts negative hword
  have hfraction := fraction_ofParts negative ((e + 1022) * 2 ^ 52 + m)
  rw [Nat.min_eq_left hfits.le]
  refine ⟨negative_ofParts negative hword, ?_, ?_⟩
  · rw [IsNormal, hfield]
    omega
  · rw [mantissa, exponent, hfield, hfraction]
    obtain hless | rfl := Nat.lt_or_eq_of_le hmost
    · left
      split <;> omega
    · right
      split <;> omega

/-- After a carry the unit is twice as large. -/
theorem carried_unit (e : ℤ) : (2 : ℚ) ^ (e - 51) = 2 * 2 ^ (e - 52) := by
  rw [← zpow_one_add₀ two_ne_zero]
  congr 1
  omega

theorem absolute_ofRatio (hn : n ≠ 0) (hfinite : (ofRatio negative ⟨n, 1⟩).isFinite) :
    (ofRatio negative ⟨n, 1⟩).absolute = leadingMantissa n * 2 ^ ((Nat.log2 n : ℤ) - 52) := by
  rw [absolute_eq]
  obtain ⟨-, -, ⟨hmantissa, hexponent⟩ | ⟨hcarry, hmantissa, hexponent⟩⟩ := fields_ofRatio hn hfinite
  · rw [hmantissa, hexponent]
  · rw [hmantissa, hexponent, hcarry, carried_unit]
    push_cast
    ring

/-- A number of at most 53 binary digits is kept. -/
theorem absolute_ofRatio_of_le (hn : n ≠ 0) (hfinite : (ofRatio negative ⟨n, 1⟩).isFinite)
    (hlog : Nat.log2 n ≤ 52) : (ofRatio negative ⟨n, 1⟩).absolute = n := by
  have hscale : ((2 ^ (52 - Nat.log2 n) : Nat) : ℚ) * 2 ^ ((Nat.log2 n : ℤ) - 52) = 1 := by
    rw [Nat.cast_pow, Nat.cast_two, ← zpow_natCast, ← zpow_add₀ two_ne_zero]
    have hzero : ((52 - Nat.log2 n : Nat) : ℤ) + ((Nat.log2 n : ℤ) - 52) = 0 := by omega
    rw [hzero, zpow_zero]
  rw [absolute_ofRatio hn hfinite, leadingMantissa_of_le hlog, Nat.cast_mul, mul_assoc, hscale,
    mul_one]

/-- A longer number is rounded to a multiple of a power of two. -/
theorem absolute_ofRatio_of_lt (hn : n ≠ 0) (hfinite : (ofRatio negative ⟨n, 1⟩).isFinite)
    (hlog : 52 < Nat.log2 n) :
    (ofRatio negative ⟨n, 1⟩).absolute =
      ((leadingMantissa n * 2 ^ (Nat.log2 n - 52) : Nat) : ℚ) := by
  have hshift : (Nat.log2 n : ℤ) - 52 = ((Nat.log2 n - 52 : Nat) : ℤ) := by omega
  rw [absolute_ofRatio hn hfinite, hshift, zpow_natCast]
  push_cast
  ring

/-- A whole number that loses digits is rounded by less than half a unit, or by one half to an even
mantissa. -/
theorem near_ofRatio_of_lt (hn : n ≠ 0) (hfinite : (ofRatio negative ⟨n, 1⟩).isFinite)
    (hlog : 52 < Nat.log2 n) : (ofRatio negative ⟨n, 1⟩).Near n := by
  obtain ⟨hhalf, hodd⟩ := roundEven_distance n (Nat.two_pow_pos (Nat.log2 n - 52))
  have hleast : 2 ^ 52 * 2 ^ (Nat.log2 n - 52) ≤ n := by
    rw [← Nat.pow_add, Nat.add_sub_cancel' hlog.le]
    exact Nat.log2_self_le hn
  have hunit : ((2 ^ (Nat.log2 n - 52) : Nat) : ℚ) = 2 ^ ((Nat.log2 n : ℤ) - 52) := by
    rw [Nat.cast_pow, Nat.cast_two, ← zpow_natCast]
    congr 1
    omega
  have habsolute := absolute_ofRatio_of_lt hn hfinite hlog
  obtain ⟨-, -, hfields⟩ := fields_ofRatio hn hfinite
  rw [← leadingMantissa_of_lt hlog] at hhalf hodd
  rw [← habsolute] at hhalf hodd
  generalize ofRatio negative ⟨n, 1⟩ = x at hhalf hodd habsolute hfields ⊢
  have hquarter := x.four_mul_quarter
  obtain ⟨hmantissa, hexponent⟩ | ⟨-, hmantissa, hexponent⟩ := hfields
  · rw [hexponent, ← hunit] at hquarter
    refine near_of_distance (by linarith) (fun hparity => ?_) fun hpower => ?_
    · linarith [hodd (hmantissa ▸ hparity)]
    · have hbelow : x.absolute ≤ n := by
        rw [habsolute, ← hmantissa, hpower]
        exact_mod_cast hleast
      linarith [x.quarter_pos]
  · -- The mantissa was carried, so a quarter is half of the unit that was rounded to.
    rw [hexponent, carried_unit, ← hunit] at hquarter
    have hdistance := (abs_le.mp hhalf).1
    exact near_of_distance (by linarith) (fun hparity => by omega) fun _ => by linarith

/-- A whole number lies in the interval of the number it is rounded to. -/
theorem near_ofRatio (hn : n ≠ 0) (hfinite : (ofRatio negative ⟨n, 1⟩).isFinite) :
    (ofRatio negative ⟨n, 1⟩).Near n := by
  obtain hlarge | hsmall := Nat.lt_or_ge 52 (Nat.log2 n)
  · exact near_ofRatio_of_lt hn hfinite hlarge
  · have hkept := near_absolute (ofRatio negative ⟨n, 1⟩)
    rwa [absolute_ofRatio_of_le hn hfinite hsmall] at hkept

/-- What a whole number is rounded to is a whole number. -/
theorem absolute_ofRatio_natural (hn : n ≠ 0) (hfinite : (ofRatio negative ⟨n, 1⟩).isFinite) :
    ∃ v : Nat, (ofRatio negative ⟨n, 1⟩).absolute = v := by
  obtain hlarge | hsmall := Nat.lt_or_ge 52 (Nat.log2 n)
  · exact ⟨_, absolute_ofRatio_of_lt hn hfinite hlarge⟩
  · exact ⟨n, absolute_ofRatio_of_le hn hfinite hsmall⟩

end

/-- Up to `2 ^ 53` every whole number is kept. -/
theorem absolute_ofRatio_exact {negative : Bool} {n : Nat} (hn : n ≠ 0)
    (hfinite : (ofRatio negative ⟨n, 1⟩).isFinite) (h : n ≤ 2 ^ 53) :
    (ofRatio negative ⟨n, 1⟩).absolute = n := by
  obtain hless | rfl := Nat.lt_or_eq_of_le h
  · have hlog := (Nat.log2_lt hn).mpr hless
    exact absolute_ofRatio_of_le hn hfinite (by omega)
  · have hlog : Nat.log2 (2 ^ 53) = 53 := Nat.log2_two_pow
    rw [absolute_ofRatio_of_lt hn hfinite (by omega), hlog]
    congr 1

/-! ## Rounding integers -/

section
variable {i j : Int}

theorem natAbs_ne_zero (hi : i ≠ 0) : i.natAbs ≠ 0 :=
  Int.natAbs_ne_zero.mpr hi

theorem negative_ofInt (hi : i ≠ 0) (hfinite : (ofInt i).isFinite) :
    (ofInt i).negative = decide (i < 0) :=
  (fields_ofRatio (natAbs_ne_zero hi) hfinite).1

theorem isNormal_ofInt (hi : i ≠ 0) (hfinite : (ofInt i).isFinite) : (ofInt i).IsNormal :=
  (fields_ofRatio (natAbs_ne_zero hi) hfinite).2.1

theorem near_ofInt (hi : i ≠ 0) (hfinite : (ofInt i).isFinite) : (ofInt i).Near i.natAbs :=
  near_ofRatio (natAbs_ne_zero hi) hfinite

theorem ofInt_zero_exponentField : (ofInt 0).exponentField = 0 := rfl

/-- The integers that are rounded to the same number as `i` are those of its sign that the number is
nearest to. -/
theorem ofInt_eq_iff (hi : i ≠ 0) (hfinite : (ofInt i).isFinite) (hfinite' : (ofInt j).isFinite) :
    ofInt j = ofInt i ↔ j ≠ 0 ∧ (j < 0 ↔ i < 0) ∧ (ofInt i).Near j.natAbs := by
  constructor
  · intro h
    have hj : j ≠ 0 := by
      rintro rfl
      exact isNormal_ofInt hi hfinite (h ▸ ofInt_zero_exponentField)
    refine ⟨hj, ?_, h ▸ near_ofInt hj hfinite'⟩
    rw [← decide_eq_decide, ← negative_ofInt hj hfinite', ← negative_ofInt hi hfinite, h]
  · rintro ⟨hj, hsign, hnear⟩
    obtain ⟨hmantissa, hexponent⟩ := near_unique (isNormal_ofInt hj hfinite')
      (isNormal_ofInt hi hfinite) (near_ofInt hj hfinite') hnear
    refine (isNormal_ofInt hj hfinite').ext (isNormal_ofInt hi hfinite) ?_ hmantissa hexponent
    rw [negative_ofInt hj hfinite', negative_ofInt hi hfinite, decide_eq_decide]
    exact hsign

end

end InteropGen.Binary64

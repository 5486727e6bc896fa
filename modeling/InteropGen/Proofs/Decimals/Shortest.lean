import InteropGen.Proofs.Decimals.Rounding

/-!
# Shortest decimals

The decimal digits of a binary64 number are searched on grids, each the multiples of a power of ten,
from coarse to fine. The search ends on the first grid with a multiple in the interval of the number,
and takes the nearest of them there.

* `Shortest.neighbour?_eq_none`, `Shortest.neighbour?_eq_some` — one grid;
* `Shortest.search_spec` — the search, by the grids that are left;
* `Shortest.digits_spec` — the digits of a number that is whole;
* `Shortest.IsShortest.eq_of_digits`, `Shortest.IsShortest.eq_of_le` — when they are all its digits.
-/

set_option autoImplicit false

namespace InteropGen

open Binary64

namespace Shortest

/-! ## Comparisons without division -/

section
variable {x : Binary64}

theorem interval_den_pos (x : Binary64) : 0 < (interval x).den :=
  scaled_den_pos _ _

/-- The unit in which the interval is written is a quarter. -/
theorem unit_num (x : Binary64) :
    ((Ratio.scaled 1 (x.exponent - 2)).num : ℚ) = x.quarter * (interval x).den := by
  rw [scaled_num, Nat.cast_one, one_mul]
  rfl

theorem interval_middle (x : Binary64) :
    ((interval x).middle : ℚ) = x.absolute * (interval x).den := by
  rw [absolute_eq_quarters, mul_assoc, ← unit_num]
  simp [interval]

theorem interval_low (hx : x.IsNormal) :
    ((interval x).low : ℚ) = x.lowEnd * (interval x).den := by
  have hdown : (if (x.mantissa == 2 ^ 52 && decide (1 < x.exponentField)) = true then 1 else 2) =
      x.quartersDown := by
    simp [quartersDown]
  have hle : x.quartersDown ≤ 4 * x.mantissa := by
    have hmost : x.quartersDown ≤ 2 := by exact_mod_cast x.quartersDown_le_two
    have := hx.le_mantissa
    omega
  have hlow : (interval x).low =
      (4 * x.mantissa - x.quartersDown) * (Ratio.scaled 1 (x.exponent - 2)).num := by
    rw [← hdown]
    rfl
  rw [hlow, Nat.cast_mul, Nat.cast_sub hle, unit_num, lowEnd_eq]
  push_cast
  ring

theorem interval_high (x : Binary64) :
    ((interval x).high : ℚ) = x.highEnd * (interval x).den := by
  have hhigh : (interval x).high =
      (4 * x.mantissa + 2) * (Ratio.scaled 1 (x.exponent - 2)).num := rfl
  rw [hhigh, Nat.cast_mul, unit_num, highEnd_eq]
  push_cast
  ring

theorem onGrid_den_pos (n : Nat) (k : Int) : 0 < (onGrid n k).den := by
  unfold onGrid
  split
  · exact Nat.one_pos
  · exact Nat.pow_pos (by decide)

theorem onGrid_num (n : Nat) (k : Int) :
    ((onGrid n k).num : ℚ) = n * 10 ^ k * (onGrid n k).den := by
  unfold onGrid
  by_cases hk : 0 ≤ k
  · obtain ⟨m, rfl⟩ := Int.eq_ofNat_of_zero_le hk
    simp [zpow_natCast]
  · obtain ⟨m, rfl⟩ : ∃ m : Nat, k = -m := ⟨(-k).toNat, by omega⟩
    rw [if_neg hk]
    simp

/-- A multiple of a power of ten is looked up in the interval. -/
theorem holds_onGrid (hx : x.IsNormal) (n : Nat) (k : Int) :
    (interval x).holds (onGrid n k).num (onGrid n k).den = true ↔ x.Near (n * 10 ^ k) := by
  have hden : (0 : ℚ) < (interval x).den := Nat.cast_pos.mpr (interval_den_pos x)
  have hgrid : (0 : ℚ) < (onGrid n k).den := Nat.cast_pos.mpr (onGrid_den_pos n k)
  have hscale := mul_pos hden hgrid
  have hends : ∀ r : ℚ, r * (interval x).den * (onGrid n k).den =
      r * ((interval x).den * (onGrid n k).den) := fun r => mul_assoc ..
  have hpoint : ((onGrid n k).num : ℚ) * (interval x).den =
      n * 10 ^ k * ((interval x).den * (onGrid n k).den) := by
    rw [onGrid_num]
    ring
  have hclosed : (interval x).closed = (x.mantissa % 2 == 0) := rfl
  unfold Interval.holds Near
  rw [hclosed]
  by_cases heven : x.mantissa % 2 = 0
  · rw [if_pos heven, if_pos (by simpa using heven), Bool.and_eq_true, decide_eq_true_iff,
      decide_eq_true_iff, ← Nat.cast_le (α := ℚ), ← Nat.cast_le (α := ℚ)]
    push_cast
    rw [interval_low hx, interval_high, hends, hends, hpoint, mul_le_mul_iff_of_pos_right hscale,
      mul_le_mul_iff_of_pos_right hscale]
  · rw [if_neg heven, if_neg (by simpa using heven), Bool.and_eq_true, decide_eq_true_iff,
      decide_eq_true_iff, ← Nat.cast_lt (α := ℚ), ← Nat.cast_lt (α := ℚ)]
    push_cast
    rw [interval_low hx, interval_high, hends, hends, hpoint, mul_lt_mul_iff_of_pos_right hscale,
      mul_lt_mul_iff_of_pos_right hscale]

/-! ## One grid -/

/-- The greatest multiple of `10 ^ k` up to the number, counted in multiples. -/
def below (x : Binary64) (k : Int) : Nat :=
  (interval x).middle * (onGrid 1 k).den / ((interval x).den * (onGrid 1 k).num)

/-- What is left of the number above that multiple. -/
def remainder (x : Binary64) (k : Int) : Nat :=
  (interval x).middle * (onGrid 1 k).den - below x k * ((interval x).den * (onGrid 1 k).num)

theorem ten_zpow_pos (k : Int) : (0 : ℚ) < 10 ^ k :=
  zpow_pos (by norm_num) k

/-- The common denominator of the number and the grid. -/
theorem step_pos (x : Binary64) (k : Int) :
    (0 : ℚ) < (interval x).den * (onGrid 1 k).den :=
  mul_pos (Nat.cast_pos.mpr (interval_den_pos x)) (Nat.cast_pos.mpr (onGrid_den_pos 1 k))

theorem step_num (x : Binary64) (k : Int) :
    (((interval x).den * (onGrid 1 k).num : Nat) : ℚ) =
      10 ^ k * ((interval x).den * (onGrid 1 k).den) := by
  rw [Nat.cast_mul, onGrid_num, Nat.cast_one, one_mul]
  ring

theorem middle_num (x : Binary64) (k : Int) :
    (((interval x).middle * (onGrid 1 k).den : Nat) : ℚ) =
      x.absolute * ((interval x).den * (onGrid 1 k).den) := by
  rw [Nat.cast_mul, interval_middle]
  ring

theorem below_le (x : Binary64) (k : Int) : below x k * 10 ^ k ≤ x.absolute := by
  have hdivision : below x k * ((interval x).den * (onGrid 1 k).num) ≤
      (interval x).middle * (onGrid 1 k).den := Nat.div_mul_le_self _ _
  rw [← Nat.cast_le (α := ℚ), middle_num, Nat.cast_mul, step_num, ← mul_assoc] at hdivision
  exact le_of_mul_le_mul_right hdivision (step_pos x k)

theorem lt_below_succ (x : Binary64) (k : Int) : x.absolute < (below x k + 1) * 10 ^ k := by
  have hpos : 0 < (interval x).den * (onGrid 1 k).num := by
    rw [← Nat.cast_pos (α := ℚ), step_num]
    exact mul_pos (ten_zpow_pos k) (step_pos x k)
  have hdivision : (interval x).middle * (onGrid 1 k).den <
      (below x k + 1) * ((interval x).den * (onGrid 1 k).num) := by
    have hbelow : (interval x).middle * (onGrid 1 k).den /
        ((interval x).den * (onGrid 1 k).num) = below x k := rfl
    rw [← Nat.div_lt_iff_lt_mul hpos, hbelow]
    exact Nat.lt_add_one _
  rw [← Nat.cast_lt (α := ℚ), middle_num, Nat.cast_mul, step_num,
    ← mul_assoc ((below x k + 1 : Nat) : ℚ)] at hdivision
  have hless := lt_of_mul_lt_mul_right hdivision (step_pos x k).le
  rwa [Nat.cast_add, Nat.cast_one] at hless

theorem remainder_lt_iff (x : Binary64) (k : Int) :
    2 * remainder x k < (interval x).den * (onGrid 1 k).num ↔
      2 * (x.absolute - below x k * 10 ^ k) < 10 ^ k := by
  have hdivision : below x k * ((interval x).den * (onGrid 1 k).num) ≤
      (interval x).middle * (onGrid 1 k).den := Nat.div_mul_le_self _ _
  have hremainder : (remainder x k : ℚ) =
      (x.absolute - below x k * 10 ^ k) * ((interval x).den * (onGrid 1 k).den) := by
    rw [remainder, Nat.cast_sub hdivision, Nat.cast_mul (below x k), step_num, middle_num]
    ring
  rw [← Nat.cast_lt (α := ℚ), Nat.cast_mul, Nat.cast_two, hremainder, step_num, ← mul_assoc,
    mul_lt_mul_iff_of_pos_right (step_pos x k)]

/-- The neighbour that is taken, by which of the two are in the interval. -/
theorem neighbour?_eq (x : Binary64) (k : Int) :
    neighbour? (interval x) k =
      if (interval x).holds (onGrid (below x k) k).num (onGrid (below x k) k).den then
        if (interval x).holds (onGrid (below x k + 1) k).num (onGrid (below x k + 1) k).den then
          if 2 * remainder x k < (interval x).den * (onGrid 1 k).num then some (below x k)
          else some (below x k + 1)
        else some (below x k)
      else
        if (interval x).holds (onGrid (below x k + 1) k).num (onGrid (below x k + 1) k).den then
          some (below x k + 1)
        else none := by
  unfold neighbour?
  cases hlower : (interval x).holds (onGrid (below x k) k).num (onGrid (below x k) k).den <;>
    cases hupper : (interval x).holds (onGrid (below x k + 1) k).num (onGrid (below x k + 1) k).den
  all_goals
    unfold below at hlower hupper
    simp only [hlower, hupper]
    rfl

/-- The neighbours of the number on a grid, and which of them is taken. -/
theorem neighbour?_cases (hx : x.IsNormal) (k : Int) :
    (neighbour? (interval x) k = none ∧ ¬ x.Near (below x k * 10 ^ k) ∧
        ¬ x.Near ((below x k + 1 : Nat) * 10 ^ k)) ∨
      (neighbour? (interval x) k = some (below x k) ∧ x.Near (below x k * 10 ^ k) ∧
        (x.Near ((below x k + 1 : Nat) * 10 ^ k) →
          2 * (x.absolute - below x k * 10 ^ k) < 10 ^ k)) ∨
      (neighbour? (interval x) k = some (below x k + 1) ∧
        x.Near ((below x k + 1 : Nat) * 10 ^ k) ∧
        (x.Near (below x k * 10 ^ k) → 10 ^ k ≤ 2 * (x.absolute - below x k * 10 ^ k))) := by
  have hhalf := remainder_lt_iff x k
  rw [neighbour?_eq, ← holds_onGrid hx, ← holds_onGrid hx]
  split_ifs with hlower hupper hless hupper
  · exact .inr (.inl ⟨rfl, hlower, fun _ => hhalf.mp hless⟩)
  · exact .inr (.inr ⟨rfl, hupper, fun _ => not_lt.mp (mt hhalf.mpr hless)⟩)
  · exact .inr (.inl ⟨rfl, hlower, fun h => absurd h hupper⟩)
  · exact .inr (.inr ⟨rfl, hupper, fun h => absurd h hlower⟩)
  · exact .inl ⟨rfl, hlower, hupper⟩

/-- A grid without a neighbour in the interval has no multiple there. -/
theorem neighbour?_eq_none (hx : x.IsNormal) {k : Int} (h : neighbour? (interval x) k = none)
    (n : Nat) : ¬ x.Near (n * 10 ^ k) := by
  obtain ⟨-, hlower, hupper⟩ | ⟨hsome, -⟩ | ⟨hsome, -⟩ := neighbour?_cases hx k
  · intro hnear
    have hgrid := (ten_zpow_pos k).le
    obtain hle | hgt := Nat.lt_or_ge (below x k) n
    · refine hupper ((near_absolute x).between hnear ?_ ?_)
      · push_cast
        exact (lt_below_succ x k).le
      · exact mul_le_mul_of_nonneg_right (Nat.cast_le.mpr hle) hgrid
    · exact hlower (hnear.between (near_absolute x)
        (mul_le_mul_of_nonneg_right (Nat.cast_le.mpr hgt) hgrid) (below_le x k))
  · rw [h] at hsome
    cases hsome
  · rw [h] at hsome
    cases hsome

/-- The neighbour that is found is in the interval, and no multiple there is nearer. -/
theorem neighbour?_eq_some (hx : x.IsNormal) {k : Int} {n : Nat}
    (h : neighbour? (interval x) k = some n) :
    x.Near (n * 10 ^ k) ∧
      ∀ m : Nat, x.Near (m * 10 ^ k) → |n * 10 ^ k - x.absolute| ≤ |m * 10 ^ k - x.absolute| := by
  have hgrid := (ten_zpow_pos k).le
  have hlow := below_le x k
  have hhigh := lt_below_succ x k
  obtain ⟨hnone, -⟩ | ⟨hsome, hnear, hhalf⟩ | ⟨hsome, hnear, hhalf⟩ := neighbour?_cases hx k
  · rw [h] at hnone
    cases hnone
  · obtain rfl : n = below x k := Option.some.inj (h.symm.trans hsome)
    refine ⟨hnear, fun m hm => ?_⟩
    rw [abs_sub_comm, abs_of_nonneg (by linarith)]
    obtain hless | hmore := Nat.lt_or_ge (below x k) m
    · have hpoint : ((below x k + 1 : Nat) : ℚ) * 10 ^ k ≤ m * 10 ^ k :=
        mul_le_mul_of_nonneg_right (Nat.cast_le.mpr hless) hgrid
      have hnext := hhalf ((near_absolute x).between hm (by push_cast; exact hhigh.le) hpoint)
      push_cast at hpoint
      exact le_abs.mpr (.inl (by linarith))
    · have hpoint : (m : ℚ) * 10 ^ k ≤ below x k * 10 ^ k :=
        mul_le_mul_of_nonneg_right (Nat.cast_le.mpr hmore) hgrid
      exact le_abs.mpr (.inr (by linarith))
  · obtain rfl : n = below x k + 1 := Option.some.inj (h.symm.trans hsome)
    refine ⟨hnear, fun m hm => ?_⟩
    push_cast
    rw [abs_of_nonneg (by linarith)]
    obtain hless | hmore := Nat.lt_or_ge (below x k) m
    · have hpoint : ((below x k + 1 : Nat) : ℚ) * 10 ^ k ≤ m * 10 ^ k :=
        mul_le_mul_of_nonneg_right (Nat.cast_le.mpr hless) hgrid
      push_cast at hpoint
      exact le_abs.mpr (.inl (by linarith))
    · have hpoint : (m : ℚ) * 10 ^ k ≤ below x k * 10 ^ k :=
        mul_le_mul_of_nonneg_right (Nat.cast_le.mpr hmore) hgrid
      have hlast := hhalf (hm.between (near_absolute x) hpoint hlow)
      exact le_abs.mpr (.inr (by linarith))

/-! ## The search -/

/-- A multiple of a power of ten that the search can end on: it is in the interval, no multiple of
the same power is nearer there, and from the first grid on there was none before. -/
structure Found (x : Binary64) (first : Int) (n : Nat) (k : Int) : Prop where
  near : x.Near (n * 10 ^ k)
  nearest : ∀ m : Nat, x.Near (m * 10 ^ k) →
    |n * 10 ^ k - x.absolute| ≤ |m * 10 ^ k - x.absolute|
  le_first : k ≤ first
  none_before : ∀ k', k < k' → k' ≤ first → ∀ m : Nat, ¬ x.Near (m * 10 ^ k')

/-- Induction on the grids that are left. The search ends on a grid that is known to have a multiple
in the interval, or before it. -/
theorem search_spec (hx : x.IsNormal) (power : Int) {last : Int} {m : Nat}
    (hm : x.Near (m * 10 ^ last)) (fuel : Nat) :
    ∀ count : Nat, last ≤ power - count + 1 → power - count + 1 < last + fuel →
      ∃ n k, search (interval x) power fuel count = (n, k) ∧
        Found x (power - count + 1) n k ∧ last ≤ k := by
  induction fuel with
  | zero =>
    intro count hlast hfuel
    omega
  | succ fuel ih =>
    intro count hlast hfuel
    cases hgrid : neighbour? (interval x) (power - count + 1) with
    | some n =>
      obtain ⟨hnear, hnearest⟩ := neighbour?_eq_some hx hgrid
      have hfound : Found x (power - count + 1) n (power - count + 1) :=
        ⟨hnear, hnearest, le_refl _, fun k' hlow hhigh => absurd hlow (by omega)⟩
      exact ⟨n, power - count + 1, by simp only [search, hgrid], hfound, hlast⟩
    | none =>
      have hnone := neighbour?_eq_none hx hgrid
      have hother : last ≠ power - count + 1 := by
        rintro rfl
        exact hnone m hm
      have hnext : power - ((count + 1 : Nat) : Int) + 1 = power - count := by omega
      obtain ⟨n, k, hsearch, hfound, hle⟩ := ih (count + 1) (by omega) (by omega)
      rw [hnext] at hfound
      have hfirst := hfound.le_first
      refine ⟨n, k, by simp only [search, hgrid, hsearch], ?_, hle⟩
      refine ⟨hfound.near, hfound.nearest, by omega, fun k' hlow hhigh => ?_⟩
      obtain hless | rfl : k' ≤ power - count ∨ k' = power - count + 1 := by omega
      · exact hfound.none_before k' hlow hless
      · exact hnone

theorem dropZeros_spec (fuel : Nat) (n : Nat) (k : Int) :
    ∃ (m z : Nat), dropZeros fuel n k = (m, k + z) ∧ n = m * 10 ^ z := by
  induction fuel generalizing n k with
  | zero => exact ⟨n, 0, by simp [dropZeros], by simp⟩
  | succ fuel ih =>
    by_cases hzero : n ≠ 0 ∧ n % 10 = 0
    · obtain ⟨m, z, hdrop, hvalue⟩ := ih (n / 10) (k + 1)
      refine ⟨m, z + 1, ?_, ?_⟩
      · rw [dropZeros, if_pos hzero, hdrop]
        congr 1
        push_cast
        ring
      · rw [Nat.pow_succ, ← Nat.mul_assoc, ← hvalue]
        omega
    · exact ⟨n, 0, by simp [dropZeros, hzero], by simp⟩

/-! ## Numbers that are whole -/

theorem digitCount_pos (n : Nat) : 0 < digitCount n :=
  Nat.length_toDigits_pos

theorem lt_ten_pow_digitCount (n : Nat) : n < 10 ^ digitCount n :=
  (Nat.length_toDigits_le_iff (by decide) (digitCount_pos n)).mp (le_refl _)

theorem ten_pow_le {n : Nat} (hn : n ≠ 0) : 10 ^ (digitCount n - 1) ≤ n := by
  obtain hone | hmore := Nat.lt_or_eq_of_le (digitCount_pos n)
  · by_contra hless
    have hshort := (Nat.length_toDigits_le_iff (by decide) (by omega)).mpr (Nat.lt_of_not_le hless)
    have hlength : (Nat.toDigits 10 n).length = digitCount n := rfl
    omega
  · rw [← hmore]
    simpa [Nat.one_le_iff_ne_zero] using hn

section
variable {v : Nat}

theorem absolute_pos (hx : x.IsNormal) : 0 < x.absolute := by
  linarith [hx.quarter_le, x.quarter_pos]

theorem ne_zero_of_absolute (hx : x.IsNormal) (hv : x.absolute = v) : v ≠ 0 := by
  rintro rfl
  exact absurd hv (by simpa using (absolute_pos hx).ne')

theorem leadingPower_of_absolute (hx : x.IsNormal) (hv : x.absolute = v) :
    leadingPower x.magnitude = ((digitCount v - 1 : Nat) : Int) := by
  have hden : 0 < x.magnitude.den := scaled_den_pos _ _
  have hnum : x.magnitude.num = v * x.magnitude.den := by
    have h := magnitude_num x
    rw [hv] at h
    exact_mod_cast h
  have hle : x.magnitude.den ≤ x.magnitude.num := by
    rw [hnum]
    exact Nat.le_mul_of_pos_left _ (Nat.pos_of_ne_zero (ne_zero_of_absolute hx hv))
  have hcount := digitCount_pos v
  rw [leadingPower, if_pos hle, hnum, Nat.mul_div_cancel _ hden]
  omega

/-- On the grid of eighteen digits the interval has a multiple: the grid is finer than a quarter. -/
theorem near_below_of_fine {power : Nat} (hpower : (10 : ℚ) ^ power ≤ x.absolute) :
    x.Near (below x (power - 17) * 10 ^ ((power : Int) - 17)) := by
  have hmantissa : (x.mantissa : ℚ) ≤ 2 ^ 53 := by exact_mod_cast x.mantissa_lt.le
  have hsplit : (10 : ℚ) ^ power = 10 ^ ((power : Int) - 17) * 10 ^ 17 := by
    rw [← zpow_natCast, ← zpow_natCast, ← zpow_add₀ (by norm_num)]
    congr 1
    push_cast
    ring
  have hbound : x.absolute ≤ 2 ^ 55 * x.quarter := by
    rw [absolute_eq_quarters]
    nlinarith [x.quarter_pos]
  have hfine : (10 : ℚ) ^ ((power : Int) - 17) ≤ x.quarter := by
    rw [hsplit] at hpower
    have hpos := x.quarter_pos
    nlinarith
  have hlow := lt_below_succ x (power - 17)
  have hhigh := below_le x (power - 17)
  have hdown : x.lowEnd ≤ x.absolute - x.quarter := by
    have := mul_le_mul_of_nonneg_right x.one_le_quartersDown x.quarter_pos.le
    unfold lowEnd
    linarith
  exact near_of_lt (by linarith) (hhigh.trans_lt x.lt_highEnd)

/-- The search finds a multiple of a power of ten that is not below one. -/
theorem search_natural (hx : x.IsNormal) (hv : x.absolute = v) :
    ∃ n z : Nat, search (interval x) (leadingPower x.magnitude) 18 1 = (n, (z : Int)) ∧
      Found x ((digitCount v - 1 : Nat) : Int) n z := by
  have hfirst : ((digitCount v - 1 : Nat) : Int) - (1 : Nat) + 1 = ((digitCount v - 1 : Nat) : Int) := by
    omega
  have hpower : (10 : ℚ) ^ (digitCount v - 1) ≤ x.absolute := by
    rw [hv]
    exact_mod_cast ten_pow_le (ne_zero_of_absolute hx hv)
  rw [leadingPower_of_absolute hx hv]
  generalize digitCount v - 1 = power at hpower hfirst ⊢
  obtain ⟨last, m, hm, hlast⟩ : ∃ (last : Int) (m : Nat), x.Near (m * 10 ^ last) ∧
      0 ≤ last ∧ last ≤ power ∧ (power : Int) < last + 18 := by
    obtain hlong | hshort := Nat.lt_or_ge 17 power
    · exact ⟨power - 17, _, near_below_of_fine hpower, by omega, by omega, by omega⟩
    · refine ⟨0, v, ?_, by omega, by omega, by omega⟩
      rw [zpow_zero, mul_one, ← hv]
      exact near_absolute x
  obtain ⟨n, k, hsearch, hfound, hle⟩ :=
    search_spec hx power hm 18 1 (by omega) (by push_cast; omega)
  obtain ⟨z, rfl⟩ := Int.eq_ofNat_of_zero_le (hlast.1.trans hle)
  rw [hfirst] at hfound
  exact ⟨n, z, hsearch, hfound⟩

/-- Two multiples of a step in the interval are the same if the step is greater than the distance to
the next greater number. -/
theorem eq_of_near_of_dvd {a b step : Nat} (ha : x.Near a) (hb : x.Near b) (hda : step ∣ a)
    (hdb : step ∣ b) (hwide : 4 * x.quarter < step) : a = b := by
  have hle : ∀ {a b : Nat}, x.Near a → x.Near b → step ∣ a → step ∣ b → a ≤ b :=
    fun {a b} ha hb hda hdb => by
      by_contra hlt
      have hstep : step ≤ a - b := Nat.le_of_dvd (by omega) (Nat.dvd_sub hda hdb)
      have hdistance : ((b + step : Nat) : ℚ) ≤ a := Nat.cast_le.mpr (by omega)
      push_cast at hdistance
      linarith [hb.sub_le ha]
  exact Nat.le_antisymm (hle ha hb hda hdb) (hle hb ha hdb hda)

/-- The whole number is a shortest decimal of the number: the number is nearest to it, it has as many
zeros at its end as any whole number of which that is true, and of those it is the closest. -/
structure IsShortest (x : Binary64) (n : Nat) : Prop where
  near : x.Near n
  zeros : ∀ m : Nat, x.Near m → ∀ k : Nat, 10 ^ k ∣ m → 10 ^ k ∣ n
  closest : ∀ m : Nat, x.Near m → (∀ k : Nat, 10 ^ k ∣ n → 10 ^ k ∣ m) →
    |n - x.absolute| ≤ |m - x.absolute|

theorem cast_grid (m z : Nat) : ((m * 10 ^ z : Nat) : ℚ) = m * 10 ^ (z : Int) := by
  rw [zpow_natCast]
  push_cast
  rfl

/-- The grid of the leading digit is coarser than the distance to the next greater number. -/
theorem quarter_lt_grid (hx : x.IsNormal) (hv : x.absolute = v) {z : Nat}
    (hz : digitCount v ≤ z + 1) : 4 * x.quarter < ((10 ^ z : Nat) : ℚ) := by
  have hcount : v < 10 ^ (z + 1) :=
    (lt_ten_pow_digitCount v).trans_le (Nat.pow_le_pow_right (by decide) hz)
  have hvalue : (v : ℚ) < ((10 ^ z : Nat) : ℚ) * 10 := by exact_mod_cast hcount
  have hbound := hx.quarter_le
  rw [hv] at hbound
  linarith

/-- No grid that the search has passed has a multiple in the interval. -/
theorem Found.lt_of_dvd {power n z : Nat} (h : Found x power n z) {m j : Nat} (hm : x.Near m)
    (hj : 10 ^ j ∣ m) (hless : z < j) : power < j := by
  by_contra hle
  obtain ⟨q, rfl⟩ := hj
  refine h.none_before j (by omega) (by omega) q ?_
  rw [← cast_grid, Nat.mul_comm]
  exact hm

theorem Found.near_natural {first : Int} {n z : Nat} (h : Found x first n z) :
    x.Near ((n * 10 ^ z : Nat) : ℚ) := by
  rw [cast_grid]
  exact h.near

theorem Found.isShortest (hx : x.IsNormal) (hv : x.absolute = v) {n z : Nat}
    (h : Found x ((digitCount v - 1 : Nat) : Int) n z) : IsShortest x (n * 10 ^ z) where
  near := h.near_natural
  zeros m hm k hk := by
    obtain hless | hle := Nat.lt_or_ge z k
    · -- The multiple is a power of ten above the number, so it is on the first grid as well.
      have hfirst : digitCount v - 1 < k := h.lt_of_dvd hm hk hless
      have hlast : digitCount v ≤ z + 1 := by
        by_contra hmore
        have hgrid := (Nat.pow_dvd_pow 10 hfirst.le).trans hk
        have := h.lt_of_dvd hm hgrid (by omega)
        omega
      have hsame : m = n * 10 ^ z :=
        eq_of_near_of_dvd hm h.near_natural ((Nat.pow_dvd_pow 10 hless.le).trans hk)
          (Nat.dvd_mul_left _ _) (quarter_lt_grid hx hv hlast)
      rw [← hsame]
      exact hk
    · exact (Nat.pow_dvd_pow 10 hle).trans (Nat.dvd_mul_left _ _)
  closest m hm hzeros := by
    obtain ⟨q, rfl⟩ := hzeros z (Nat.dvd_mul_left _ _)
    rw [Nat.mul_comm, cast_grid] at hm
    rw [Nat.mul_comm (10 ^ z), cast_grid, cast_grid]
    exact h.nearest q hm

/-- **Shortest digits.** The digits of a number that is whole spell a shortest decimal of it, less the
zeros at its end, which the exponent counts. -/
theorem digits_spec (hx : x.IsNormal) (hv : x.absolute = v) :
    ∃ n z : Nat, digits x = ⟨n, z + (digitCount n : Int) - 1⟩ ∧ IsShortest x (n * 10 ^ z) := by
  obtain ⟨n, z, hsearch, hfound⟩ := search_natural hx hv
  obtain ⟨m, more, hdrop, hvalue⟩ := dropZeros_spec 18 n z
  have hdigits : digits x = ⟨m, (z : Int) + more + (digitCount m : Int) - 1⟩ := by
    simp only [digits, hsearch, hdrop]
  have hsame : n * 10 ^ z = m * 10 ^ (z + more) := by
    rw [hvalue, Nat.mul_assoc, ← Nat.pow_add, Nat.add_comm more]
  refine ⟨m, z + more, by rw [hdigits]; push_cast; rfl, ?_⟩
  rw [← hsame]
  exact hfound.isShortest hx hv

/-! ## Numbers that are spelled in full -/

/-- A whole number of fifteen digits, less the zeros at its end, is the only shortest decimal of the
number that it rounds to. -/
theorem IsShortest.eq_of_digits {n r k : Nat} (h : IsShortest x n) (hx : x.IsNormal)
    (hr : x.Near r) (hk : 10 ^ k ∣ r) (hdigits : r < 10 ^ (15 + k)) : n = r := by
  refine eq_of_near_of_dvd h.near hr (h.zeros r hr k hk) hk ?_
  have hquarter := hx.quarter_le_of_near hr
  have hlimit : (r : ℚ) < 10 ^ 15 * 10 ^ k := by
    rw [← pow_add]
    exact_mod_cast hdigits
  push_cast
  linarith [x.quarter_pos]

/-- So is a whole number that is not above `2 ^ 53` and is not rounded. -/
theorem IsShortest.eq_of_le {n r : Nat} (h : IsShortest x n) (hx : x.IsNormal)
    (hr : x.absolute = r) (hle : r ≤ 2 ^ 53) : n = r := by
  by_contra hne
  have hdistance := h.near.distance_le
  have hquarter := hx.quarter_le
  rw [hr] at hdistance hquarter
  have hlimit : (r : ℚ) ≤ 2 ^ 53 := by exact_mod_cast hle
  have hapart : (1 : ℚ) ≤ |(n : ℚ) - r| := by
    have hinteger : (1 : Int) ≤ |(n : Int) - r| := Int.one_le_abs (by omega)
    exact_mod_cast hinteger
  -- Only at `2 ^ 53` is a neighbour as near as half a unit, and it has no zero at its end.
  have htop : 2 ^ 53 ≤ r := by
    have : (2 : ℚ) ^ 53 ≤ r := by linarith
    exact_mod_cast this
  have hneighbour : |(n : Int) - r| ≤ 1 := by
    have : |(n : ℚ) - r| ≤ 1 := by linarith
    exact_mod_cast this
  have hten : ¬ 10 ∣ n := by
    rw [abs_le] at hneighbour
    omega
  have hclosest := h.closest r (hr ▸ near_absolute x) fun k hk => by
    cases k with
    | zero => exact one_dvd r
    | succ k => exact absurd ((Dvd.intro_left _ rfl).trans hk) hten
  rw [hr, sub_self, abs_zero] at hclosest
  linarith

end

end

end Shortest

end InteropGen

import Mathlib.Algebra.Order.Field.Basic
import Mathlib.Data.Rat.Cast.Defs
import Mathlib.Tactic.Linarith
import Mathlib.Tactic.Ring
import InteropGen.Constant
import InteropGen.Proofs.Graph.Values

/-!
# Magnitudes of numbers

The size of a binary64 number is compared with whole numbers without dividing. The comparisons are
those of the rational number that the fields of the binary64 number stand for.

* `Binary64.magnitudeLE_iff`, `Binary64.magnitudeLT_iff` — the two comparisons;
* `Binary64.absolute_ofInt_lt` — whole numbers of 64 bits stay small when they are rounded.
-/

set_option autoImplicit false

namespace InteropGen.Binary64

/-- The absolute value of a finite number. A normal number is one and a fraction, scaled by its
exponent; the others are fractions alone, at the least exponent. -/
def absolute (x : Binary64) : ℚ :=
  if x.exponentField = 0 then x.fraction * 2 ^ (-1074 : ℤ)
  else (1 + x.fraction * 2 ^ (-52 : ℤ)) * 2 ^ ((x.exponentField : ℤ) - 1023)

theorem absolute_eq (x : Binary64) : x.absolute = x.mantissa * 2 ^ x.exponent := by
  unfold absolute mantissa exponent
  by_cases hsmall : x.exponentField = 0
  · simp [hsmall]
  · have hexponent : ((max x.exponentField 1 : Nat) : ℤ) - 1075 = (x.exponentField : ℤ) - 1075 := by
      omega
    have hscale : (2 : ℚ) ^ ((x.exponentField : ℤ) - 1023) =
        2 ^ (52 : ℤ) * 2 ^ ((x.exponentField : ℤ) - 1075) := by
      rw [← zpow_add₀ (by norm_num)]
      congr 1
      omega
    rw [if_neg hsmall, if_neg hsmall, hexponent, hscale]
    push_cast
    norm_num
    ring

/-- The exponent field bounds the number by a power of two. -/
theorem absolute_lt (x : Binary64) : x.absolute < 2 ^ ((x.exponentField : ℤ) - 1022) := by
  have hfraction : (x.fraction : ℚ) < 2 ^ (52 : ℤ) := by
    have hlt : x.fraction < 2 ^ 52 := Nat.mod_lt _ (by decide)
    exact_mod_cast hlt
  unfold absolute
  by_cases hsmall : x.exponentField = 0
  · rw [if_pos hsmall, hsmall]
    calc (x.fraction : ℚ) * 2 ^ (-1074 : ℤ)
        < 2 ^ (52 : ℤ) * 2 ^ (-1074 : ℤ) := mul_lt_mul_of_pos_right hfraction (zpow_pos two_pos _)
      _ = 2 ^ (((0 : Nat) : ℤ) - 1022) := by rw [← zpow_add₀ (by norm_num)]; norm_num
  · have hone : (x.fraction : ℚ) * 2 ^ (-52 : ℤ) < 1 := by
      calc (x.fraction : ℚ) * 2 ^ (-52 : ℤ)
          < 2 ^ (52 : ℤ) * 2 ^ (-52 : ℤ) := mul_lt_mul_of_pos_right hfraction (zpow_pos two_pos _)
        _ = 1 := by rw [← zpow_add₀ (by norm_num)]; norm_num
    rw [if_neg hsmall]
    calc (1 + (x.fraction : ℚ) * 2 ^ (-52 : ℤ)) * 2 ^ ((x.exponentField : ℤ) - 1023)
        < 2 * 2 ^ ((x.exponentField : ℤ) - 1023) :=
          mul_lt_mul_of_pos_right (by linarith) (zpow_pos two_pos _)
      _ = 2 ^ ((x.exponentField : ℤ) - 1022) := by
          rw [← zpow_one_add₀ (by norm_num)]
          congr 1
          ring

/-- Whole numbers of 64 bits, with or without a sign, stay small when they are rounded. -/
theorem absolute_ofInt_lt {i : Int} (h : -2 ^ 63 ≤ i ∧ i < 2 ^ 64) :
    (ofInt i).absolute < 2 ^ (66 : ℤ) := by
  have hexponent : (ofInt i).exponentField ≤ 1088 :=
    exponentField_ofRatio_natural _ (by omega)
  calc (ofInt i).absolute
      < 2 ^ (((ofInt i).exponentField : ℤ) - 1022) := absolute_lt _
    _ ≤ 2 ^ (66 : ℤ) := zpow_le_zpow_right₀ (by norm_num) (by omega)

/-! ## Comparisons without division -/

theorem scaled_den_pos (m : Nat) (e : Int) : 0 < (Ratio.scaled m e).den := by
  unfold Ratio.scaled
  split
  · exact Nat.one_pos
  · exact Nat.two_pow_pos _

theorem scaled_num (m : Nat) (e : Int) :
    ((Ratio.scaled m e).num : ℚ) = m * 2 ^ e * (Ratio.scaled m e).den := by
  unfold Ratio.scaled
  by_cases he : 0 ≤ e
  · obtain ⟨n, rfl⟩ := Int.eq_ofNat_of_zero_le he
    simp [zpow_natCast]
  · obtain ⟨n, rfl⟩ : ∃ n : Nat, e = -n := ⟨(-e).toNat, by omega⟩
    rw [if_neg he]
    simp

theorem magnitude_num (x : Binary64) :
    (x.magnitude.num : ℚ) = x.absolute * x.magnitude.den := by
  rw [absolute_eq]
  exact scaled_num _ _

theorem magnitude_den_pos (x : Binary64) : (0 : ℚ) < x.magnitude.den :=
  Nat.cast_pos.mpr (scaled_den_pos _ _)

theorem magnitudeLE_iff (x : Binary64) (n : Nat) : x.magnitudeLE n = true ↔ x.absolute ≤ n := by
  calc x.magnitudeLE n = true
      ↔ (x.magnitude.num : ℚ) ≤ n * x.magnitude.den := by
        rw [magnitudeLE, decide_eq_true_iff]
        exact_mod_cast Iff.rfl
    _ ↔ x.absolute ≤ n := by
        rw [magnitude_num, mul_le_mul_iff_of_pos_right x.magnitude_den_pos]

theorem magnitudeLT_iff (x : Binary64) (n : Nat) : x.magnitudeLT n = true ↔ x.absolute < n := by
  calc x.magnitudeLT n = true
      ↔ (x.magnitude.num : ℚ) < n * x.magnitude.den := by
        rw [magnitudeLT, decide_eq_true_iff]
        exact_mod_cast Iff.rfl
    _ ↔ x.absolute < n := by
        rw [magnitude_num, mul_lt_mul_iff_of_pos_right x.magnitude_den_pos]

end InteropGen.Binary64

import Mathlib.Algebra.Group.Nat.Defs
import InteropGen.Target.Element

/-!
# Array dimensions

`checkDims` multiplies in 64 bits and stops at the first product that does not fit
(`elementCount_eq_some_iff`). For positive dimensions the partial products only grow, so that
stopping early never changes the verdict: the check is exact arithmetic on natural numbers
(`checkDims_ok_iff`).
-/

set_option autoImplicit false

namespace InteropGen

/-- Dimensions of an array that the managed side can count: some, all positive, and fewer than
`2 ^ 31` elements. -/
structure ValidDims (dims : List Nat) : Prop where
  nonempty : dims ≠ []
  positive : ∀ d ∈ dims, 0 < d
  count_lt : dims.prod < 2 ^ 31

instance (dims : List Nat) : Decidable (ValidDims dims) :=
  decidable_of_iff (dims ≠ [] ∧ (∀ d ∈ dims, 0 < d) ∧ dims.prod < 2 ^ 31)
    ⟨fun h => ⟨h.1, h.2.1, h.2.2⟩, fun h => ⟨h.nonempty, h.positive, h.count_lt⟩⟩

theorem prod_pos (dims : List Nat) (positive : ∀ d ∈ dims, 0 < d) : 0 < dims.prod := by
  induction dims with
  | nil => simp
  | cons d rest ih =>
    rw [List.prod_cons]
    exact Nat.mul_pos (positive d (by simp)) (ih fun x hx => positive x (by simp [hx]))

theorem le_prod (dims : List Nat) (positive : ∀ d ∈ dims, 0 < d) (d : Nat) (hd : d ∈ dims) :
    d ≤ dims.prod := by
  induction dims with
  | nil => cases hd
  | cons e rest ih =>
    have hrest : ∀ x ∈ rest, 0 < x := fun x hx => positive x (by simp [hx])
    rw [List.prod_cons]
    rcases List.mem_cons.mp hd with heq | hmem
    · subst heq
      exact Nat.le_mul_of_pos_right d (prod_pos rest hrest)
    · exact Nat.le_trans (ih hrest hmem) (Nat.le_mul_of_pos_left _ (positive e (by simp)))

/-- Counting on from `count`. No wrapped product is ever seen: each intermediate result is that of a
prefix of the dimensions, and all of them fit. -/
theorem elementCount_from_eq_some_iff (dims : List Nat) {count : Nat} (hcount : count < 2 ^ 64)
    (n : Nat) :
    dims.foldlM (fun count d => if count * d < 2 ^ 64 then some (count * d) else none) count =
        some n ↔
      n = count * dims.prod ∧ ∀ front, front <+: dims → count * front.prod < 2 ^ 64 := by
  induction dims generalizing count with
  | nil =>
    simp only [List.foldlM_nil, Option.pure_def, Option.some.injEq, List.prod_nil, Nat.mul_one,
      List.prefix_nil, forall_eq, hcount, and_true]
    exact eq_comm
  | cons d rest ih =>
    have hassoc : ∀ front : List Nat, count * (d * front.prod) = count * d * front.prod :=
      fun front => (Nat.mul_assoc ..).symm
    have hprefixes : (∀ front, front <+: d :: rest → count * front.prod < 2 ^ 64) ↔
        count * d < 2 ^ 64 ∧ ∀ front, front <+: rest → count * d * front.prod < 2 ^ 64 := by
      constructor
      · intro h
        refine ⟨by simpa using h [d] (by simp), fun front hfront => ?_⟩
        rw [← hassoc, ← List.prod_cons]
        exact h (d :: front) (List.cons_prefix_cons.mpr ⟨rfl, hfront⟩)
      · rintro ⟨-, h⟩ front hfront
        obtain rfl | ⟨tail, rfl, htail⟩ := List.prefix_cons_iff.mp hfront
        · simpa using hcount
        · rw [List.prod_cons, hassoc]
          exact h tail htail
    rw [List.foldlM_cons, List.prod_cons, hassoc, hprefixes]
    by_cases hfits : count * d < 2 ^ 64
    · rw [if_pos hfits, Option.bind_eq_bind, Option.bind_some, ih hfits]
      exact and_congr_right fun _ => (and_iff_right hfits).symm
    · rw [if_neg hfits]
      exact iff_of_false nofun fun h => hfits h.2.1

/-- The count is the product, unless a product of leading dimensions does not fit in 64 bits. -/
theorem elementCount_eq_some_iff (dims : List Nat) (n : Nat) :
    elementCount dims = some n ↔
      n = dims.prod ∧ ∀ front, front <+: dims → front.prod < 2 ^ 64 := by
  have hone : 1 < 2 ^ 64 := by decide
  unfold elementCount
  simp only [elementCount_from_eq_some_iff dims hone, Nat.one_mul]

/-- The leading dimensions have no larger product than all of them. -/
theorem prefix_prod_le {front dims : List Nat} (positive : ∀ d ∈ dims, 0 < d)
    (hfront : front <+: dims) : front.prod ≤ dims.prod := by
  obtain ⟨rest, rfl⟩ := hfront
  rw [List.prod_append]
  exact Nat.le_mul_of_pos_right _ (prod_pos rest fun d hd => positive d (by simp [hd]))

theorem elementCount_eq (dims : List Nat) (positive : ∀ d ∈ dims, 0 < d) :
    elementCount dims = if dims.prod < 2 ^ 64 then some dims.prod else none := by
  by_cases hfits : dims.prod < 2 ^ 64
  · rw [if_pos hfits, elementCount_eq_some_iff]
    exact ⟨rfl, fun front hfront => Nat.lt_of_le_of_lt (prefix_prod_le positive hfront) hfits⟩
  · rw [if_neg hfits, Option.eq_none_iff_forall_ne_some]
    intro n hcounted
    exact hfits (((elementCount_eq_some_iff dims n).mp hcounted).2 dims (List.prefix_refl dims))

theorem ValidDims.le_prod {dims : List Nat} (valid : ValidDims dims) (d : Nat) (hd : d ∈ dims) :
    d ≤ dims.prod :=
  InteropGen.le_prod dims valid.positive d hd

theorem ValidDims.dim_le {dims : List Nat} (valid : ValidDims dims) (d : Nat) (hd : d ∈ dims) :
    d ≤ 2147483647 := by
  have hle := valid.le_prod d hd
  have hcount := valid.count_lt
  omega

/-- An array that has not several dimensions has one. -/
theorem ValidDims.eq_singleton {dims : List Nat} (valid : ValidDims dims)
    (h : multiDimensional dims = false) : ∃ d, dims = [d] := by
  match dims, valid with
  | [], valid => exact absurd rfl valid.nonempty
  | [d], _ => exact ⟨d, rfl⟩
  | _ :: _ :: _, _ => simp [multiDimensional] at h

theorem checkDims_ok_iff (site : Site) (dims : List Nat) (n : Nat) :
    checkDims site dims = .ok n ↔ ValidDims dims ∧ dims.prod = n := by
  unfold checkDims
  by_cases hbad : dims = [] ∨ 0 ∈ dims
  · rw [if_pos hbad]
    constructor
    · intro h
      cases h
    · rintro ⟨valid, _⟩
      rcases hbad with hnil | hzero
      · exact absurd hnil valid.nonempty
      · exact absurd (valid.positive 0 hzero) (Nat.lt_irrefl 0)
  · have positive : ∀ d ∈ dims, 0 < d := fun d hd =>
      Nat.pos_of_ne_zero fun hz => hbad (Or.inr (hz ▸ hd))
    have hnonempty : dims ≠ [] := fun hnil => hbad (Or.inl hnil)
    rw [if_neg hbad, elementCount_eq dims positive]
    by_cases hcount : dims.prod < 2 ^ 31
    · have hword : dims.prod < 2 ^ 64 := by omega
      simp only [if_pos hword, if_pos hcount, Except.ok.injEq]
      exact ⟨fun h => ⟨⟨hnonempty, positive, hcount⟩, h⟩, fun h => h.2⟩
    · constructor
      · intro h
        by_cases hword : dims.prod < 2 ^ 64
        · simp only [if_pos hword, if_neg hcount] at h
          cases h
        · simp only [if_neg hword] at h
          cases h
      · rintro ⟨valid, _⟩
        exact absurd valid.count_lt hcount

theorem checkDims_of_valid (site : Site) (dims : List Nat) (valid : ValidDims dims) :
    checkDims site dims = .ok dims.prod :=
  (checkDims_ok_iff site dims dims.prod).mpr ⟨valid, rfl⟩

end InteropGen

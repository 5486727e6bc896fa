import Mathlib.Data.List.Forall2
import Mathlib.Data.List.Nodup
import InteropGen.Proofs.Dimensions
import InteropGen.LoopNest

/-!
# Index tuples of an array

The elements of an array of several dimensions are reached by tuples of indices. The module numbers
them in row-major order.

* `flat_lt`, `flat_injective` — inside the bounds, positions are below the number of elements and
  belong to one tuple only;
* `rowMajor_getElem_flat`, `rowMajor_map_flat` — a tuple stands at its position in `rowMajor`;
* `mem_rowPrefixes` — the tuples that lead to the rows of an array of arrays;
* `strides_cons` — the weight that `flatIndex` puts on an index is the size of its row.
-/

set_option autoImplicit false

namespace InteropGen

/-- Every index is below its dimension. -/
def InBounds (dims idx : List Nat) : Prop :=
  List.Forall₂ (fun i d => i < d) idx dims

/-- The position of an element among all elements, the last index moving fastest. -/
def flat : (dims idx : List Nat) → Nat
  | _ :: rest, i :: inner => i * rest.prod + flat rest inner
  | _, _ => 0

/-- All index tuples, the last index moving fastest. -/
def rowMajor : (dims : List Nat) → List (List Nat)
  | [] => [[]]
  | d :: rest => (List.range d).flatMap fun i => (rowMajor rest).map (i :: ·)

theorem InBounds.length_eq {dims idx : List Nat} (h : InBounds dims idx) :
    idx.length = dims.length :=
  List.Forall₂.length_eq h

theorem inBounds_cons {d i : Nat} {rest inner : List Nat} :
    InBounds (d :: rest) (i :: inner) ↔ i < d ∧ InBounds rest inner := by
  simp [InBounds]

theorem InBounds.cases_cons {d : Nat} {rest idx : List Nat} (h : InBounds (d :: rest) idx) :
    ∃ i inner, idx = i :: inner ∧ i < d ∧ InBounds rest inner := by
  cases h with
  | cons hi hinner => exact ⟨_, _, rfl, hi, hinner⟩

theorem InBounds.eq_nil {idx : List Nat} (h : InBounds [] idx) : idx = [] := by
  cases h
  rfl

theorem InBounds.ne_nil {dims idx : List Nat} (h : InBounds dims idx) (hne : dims ≠ []) :
    idx ≠ [] := by
  rintro rfl
  cases h
  exact hne rfl

theorem flat_cons (d i : Nat) (rest inner : List Nat) :
    flat (d :: rest) (i :: inner) = i * rest.prod + flat rest inner := rfl

theorem row_end_le {i d p : Nat} (h : i < d) : i * p + p ≤ d * p := by
  calc i * p + p = (i + 1) * p := (Nat.succ_mul i p).symm
    _ ≤ d * p := Nat.mul_le_mul_right p h

theorem flat_lt {dims idx : List Nat} (h : InBounds dims idx) : flat dims idx < dims.prod := by
  induction h with
  | nil => simp [flat]
  | @cons i d inner rest hi hinner ih =>
    have hrow := row_end_le (p := rest.prod) hi
    rw [flat_cons, List.prod_cons]
    omega

theorem flat_injective {dims a b : List Nat} (ha : InBounds dims a) (hb : InBounds dims b)
    (h : flat dims a = flat dims b) : a = b := by
  induction ha generalizing b with
  | nil => exact hb.eq_nil.symm
  | @cons i d inner rest hi hinner ih =>
    obtain ⟨j, other, rfl, hj, hother⟩ := hb.cases_cons
    have hleft := flat_lt hinner
    have hright := flat_lt hother
    rw [flat_cons, flat_cons] at h
    -- equal positions lie in the same row
    have hrow : i = j := by
      rcases Nat.lt_trichotomy i j with hlt | heq | hgt
      · have := row_end_le (p := rest.prod) hlt
        omega
      · exact heq
      · have := row_end_le (p := rest.prod) hgt
        omega
    subst hrow
    rw [ih hother (by omega)]

/-- Every position below the number of elements belongs to a tuple. -/
theorem exists_flat_eq (dims : List Nat) (k : Nat) (h : k < dims.prod) :
    ∃ idx, InBounds dims idx ∧ flat dims idx = k := by
  induction dims generalizing k with
  | nil =>
    rw [List.prod_nil] at h
    refine ⟨[], .nil, ?_⟩
    simp only [flat]
    omega
  | cons d rest ih =>
    rw [List.prod_cons] at h
    have hpos : 0 < rest.prod := Nat.pos_of_mul_pos_left (Nat.lt_of_le_of_lt (Nat.zero_le k) h)
    obtain ⟨inner, hinner, hflat⟩ := ih (k % rest.prod) (Nat.mod_lt k hpos)
    have hhead : k / rest.prod < d := Nat.div_lt_of_lt_mul (by rwa [Nat.mul_comm])
    refine ⟨k / rest.prod :: inner, inBounds_cons.mpr ⟨hhead, hinner⟩, ?_⟩
    rw [flat_cons, hflat, Nat.mul_comm]
    exact Nat.div_add_mod k rest.prod

theorem rowMajor_length (dims : List Nat) : (rowMajor dims).length = dims.prod := by
  induction dims with
  | nil => rfl
  | cons d rest ih => simp [rowMajor, List.length_flatMap, ih]

theorem mem_rowMajor {dims idx : List Nat} : idx ∈ rowMajor dims ↔ InBounds dims idx := by
  induction dims generalizing idx with
  | nil =>
    simp only [rowMajor, List.mem_singleton]
    constructor
    · intro h
      subst h
      exact .nil
    · exact InBounds.eq_nil
  | cons d rest ih =>
    simp only [rowMajor, List.mem_flatMap, List.mem_range, List.mem_map]
    constructor
    · intro h
      obtain ⟨i, hi, inner, hinner, rfl⟩ := h
      exact inBounds_cons.mpr ⟨hi, ih.mp hinner⟩
    · intro h
      obtain ⟨i, inner, rfl, hi, hinner⟩ := h.cases_cons
      exact ⟨i, hi, inner, ih.mpr hinner, rfl⟩

/-- The tuples of row `i` start at position `i * rest.prod`. -/
theorem rowMajor_cons_getElem (d i k : Nat) (rest : List Nat) (hi : i < d) (hk : k < rest.prod) :
    (rowMajor (d :: rest))[i * rest.prod + k]? = ((rowMajor rest)[k]?).map (i :: ·) := by
  induction d with
  | zero => omega
  | succ d ih =>
    have hsplit : rowMajor ((d + 1) :: rest) =
        rowMajor (d :: rest) ++ (rowMajor rest).map (d :: ·) := by
      simp [rowMajor, List.range_succ]
    have hlength : (rowMajor (d :: rest)).length = d * rest.prod := by
      rw [rowMajor_length, List.prod_cons]
    rw [hsplit]
    by_cases hlast : i < d
    · have hrow := row_end_le (p := rest.prod) hlast
      rw [List.getElem?_append_left (by omega)]
      exact ih hlast
    · have heq : i = d := by omega
      subst heq
      rw [List.getElem?_append_right (by omega), hlength, Nat.add_sub_cancel_left,
        List.getElem?_map]

theorem rowMajor_getElem_flat {dims idx : List Nat} (h : InBounds dims idx) :
    (rowMajor dims)[flat dims idx]? = some idx := by
  induction h with
  | nil => rfl
  | @cons i d inner rest hi hinner ih =>
    rw [flat_cons, rowMajor_cons_getElem d i _ rest hi (flat_lt hinner), ih]
    rfl

theorem rowMajor_map_flat (dims : List Nat) :
    (rowMajor dims).map (flat dims) = List.range dims.prod := by
  apply List.ext_getElem?
  intro k
  by_cases hk : k < dims.prod
  · obtain ⟨idx, hidx, rfl⟩ := exists_flat_eq dims k hk
    rw [List.getElem?_map, rowMajor_getElem_flat hidx]
    simp [hk]
  · have hleft : (rowMajor dims).length ≤ k := by
      rw [rowMajor_length]
      omega
    simp [hk, hleft]

theorem rowMajor_singleton (d : Nat) : rowMajor [d] = (List.range d).map ([·]) := by
  rw [List.map_eq_flatMap]
  rfl

theorem rowMajor_nodup (dims : List Nat) : (rowMajor dims).Nodup := by
  have hpositions : ((rowMajor dims).map (flat dims)).Nodup := by
    rw [rowMajor_map_flat]
    exact List.nodup_range
  exact List.Nodup.of_map _ hpositions

/-- The indices of the rows of an array of arrays, each before the rows in it. The outermost row has
none, and the elements of an innermost row are no rows. -/
def rowPrefixes : (dims : List Nat) → List (List Nat)
  | [] => []
  | d :: rest => [] :: (List.range d).flatMap fun i => (rowPrefixes rest).map (i :: ·)

theorem mem_rowPrefixes {dims p : List Nat} :
    p ∈ rowPrefixes dims ↔ p.length < dims.length ∧ InBounds (dims.take p.length) p := by
  induction dims generalizing p with
  | nil => simp [rowPrefixes]
  | cons d rest ih =>
    cases p with
    | nil => simp [rowPrefixes, InBounds]
    | cons i inner => simp [rowPrefixes, ih, inBounds_cons, and_left_comm]

theorem rowPrefixes_nodup (dims : List Nat) : (rowPrefixes dims).Nodup := by
  induction dims with
  | nil => exact List.nodup_nil
  | cons d rest ih =>
    rw [rowPrefixes, List.nodup_cons]
    refine ⟨by simp, List.nodup_flatMap.mpr ⟨?_, ?_⟩⟩
    · intro i _
      exact ih.map (List.cons_injective)
    · refine List.nodup_range.imp ?_
      intro i j hne p hi hj
      obtain ⟨_, _, rfl⟩ := List.mem_map.mp hi
      obtain ⟨_, _, heq⟩ := List.mem_map.mp hj
      exact hne (List.cons.inj heq).1.symm

theorem strides_head (d : Nat) (rest : List Nat) (positive : ∀ x ∈ rest, 0 < x)
    (hcount : rest.prod ≤ strideLimit) : (strides (d :: rest)).headD 1 = rest.prod := by
  induction rest generalizing d with
  | nil => rfl
  | cons e rest ih =>
    have he : 0 < e := positive e (by simp)
    have hrest : ∀ x ∈ rest, 0 < x := fun x hx => positive x (by simp [hx])
    rw [List.prod_cons] at hcount
    have hinner : rest.prod ≤ strideLimit :=
      Nat.le_trans (Nat.le_mul_of_pos_left rest.prod he) hcount
    show min ((strides (e :: rest)).headD 1 * e) strideLimit = _
    rw [ih e hrest hinner, List.prod_cons, Nat.mul_comm rest.prod e]
    exact Nat.min_eq_left hcount

theorem strides_cons (d : Nat) (rest : List Nat) (positive : ∀ x ∈ rest, 0 < x)
    (hcount : rest.prod ≤ strideLimit) : strides (d :: rest) = rest.prod :: strides rest := by
  cases rest with
  | nil => rfl
  | cons e rest =>
    have hhead := strides_head d (e :: rest) positive hcount
    show min _ strideLimit :: strides (e :: rest) = _
    rw [← hhead]
    rfl

end InteropGen

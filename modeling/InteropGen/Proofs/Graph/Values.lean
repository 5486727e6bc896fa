import Mathlib.Data.List.Basic
import InteropGen.Json.Basic
import InteropGen.Proofs.OptionMap

/-!
# JSON values and what is read from them

Lists, whole numbers and records read back what was written, and the parts of a value are less
deeply nested than the value.

* `Json.Sized` — values as they stand in a text, where a whole number has 64 bits at most; the parts
  that are read from such a value are such values;
* `Binary64.isFinite_ofInt` — these whole numbers are finite when they are read as binary64 numbers.
-/

set_option autoImplicit false

namespace InteropGen

/-! ## Whole numbers as binary64 numbers -/

namespace Binary64

theorem roundEven_le (num den : Nat) : roundEven num den ≤ num / den + 1 := by
  simp only [roundEven]
  split
  · omega
  · split <;> omega

/-- The leading digit of a whole number is the one that its binary logarithm names. -/
theorem leadingExponent_natural {n : Nat} (h : n ≠ 0) : leadingExponent ⟨n, 1⟩ = Nat.log2 n := by
  have hle : 2 ^ Nat.log2 n ≤ n := Nat.log2_self_le h
  have hone : Nat.log2 1 = 0 := by decide
  simp [leadingExponent, hone, hle]

theorem exponentField_ofParts (negative : Bool) {low : Nat} (h : low < 2 ^ 63) :
    (ofParts negative low).exponentField = low / 2 ^ 52 := by
  cases negative <;>
    simp only [exponentField, ofParts, UInt64.toNat_ofNat', Bool.false_eq_true, if_false,
      if_true] <;>
    omega

/-- The mantissa that a whole number is rounded to has 54 bits at most. -/
theorem mantissa_le (n : Nat) :
    (if (0 : Int) ≤ (Nat.log2 n : Int) - 52 then
      roundEven n (1 * 2 ^ ((Nat.log2 n : Int) - 52).toNat)
    else roundEven (n * 2 ^ (-((Nat.log2 n : Int) - 52)).toNat) 1) ≤ 2 ^ 53 := by
  have hlt : n < 2 ^ (Nat.log2 n + 1) := Nat.lt_log2_self
  generalize Nat.log2 n = e at hlt ⊢
  split
  · obtain ⟨k, rfl⟩ : ∃ k, e = 52 + k := ⟨e - 52, by omega⟩
    have hk : ((52 + k : Nat) - 52 : Int).toNat = k := by omega
    have hquotient : n / 2 ^ k < 2 ^ 53 := by
      rw [Nat.div_lt_iff_lt_mul (Nat.two_pow_pos k), ← Nat.pow_add]
      rwa [show 53 + k = 52 + k + 1 by omega]
    have hround := roundEven_le n (2 ^ k)
    rw [hk, Nat.one_mul]
    omega
  · obtain ⟨k, hk⟩ : ∃ k, k + e = 52 := ⟨52 - e, by omega⟩
    have hexponent : (-((e : Int) - 52)).toNat = k := by omega
    have hproduct : n * 2 ^ k < 2 ^ 53 := calc
      n * 2 ^ k < 2 ^ (e + 1) * 2 ^ k := Nat.mul_lt_mul_of_pos_right hlt (Nat.two_pow_pos k)
      _ = 2 ^ 53 := by rw [← Nat.pow_add, show e + 1 + k = 53 by omega]
    have hround := roundEven_le (n * 2 ^ k) 1
    rw [hexponent]
    omega

/-- A whole number of 65 bits is far from the largest binary64 number. -/
theorem exponentField_ofRatio_natural (negative : Bool) {n : Nat} (h : n < 2 ^ 65) :
    (ofRatio negative ⟨n, 1⟩).exponentField ≤ 1088 := by
  by_cases hzero : n = 0
  · subst hzero
    cases negative <;> decide
  · have hlog : Nat.log2 n < 65 := (Nat.log2_lt hzero).mpr h
    have hunit : max (leadingExponent ⟨n, 1⟩ - 52) (-1074) = (Nat.log2 n : Int) - 52 := by
      rw [leadingExponent_natural hzero]
      omega
    have hmantissa := mantissa_le n
    simp only [ofRatio, hzero, if_false, hunit, infinityBits]
    generalize (if (0 : Int) ≤ (Nat.log2 n : Int) - 52 then _ else _ : Nat) = m at hmantissa ⊢
    rw [exponentField_ofParts negative (by omega)]
    omega

theorem isFinite_ofRatio_natural (negative : Bool) {n : Nat} (h : n < 2 ^ 65) :
    (ofRatio negative ⟨n, 1⟩).isFinite := by
  have hexponent := exponentField_ofRatio_natural negative h
  rw [isFinite, bne_iff_ne]
  omega

/-- Whole numbers of 64 bits, with or without a sign, are finite. -/
theorem isFinite_ofInt {i : Int} (h : -2 ^ 63 ≤ i ∧ i < 2 ^ 64) : (ofInt i).isFinite :=
  isFinite_ofRatio_natural _ (by omega)

end Binary64

/-! ## Lists and numbers -/

namespace Json

section
variable {α : Type}

theorem list?_array (item : Json → Option α) (write : α → Json) (xs : List α)
    (h : ∀ x ∈ xs, item (write x) = some x) : (array (xs.map write)).list? item = some xs := by
  rw [list?, array?, Option.bind_eq_bind, Option.bind_some, List.mapM_map,
    option_mapM_of_mem (item ∘ write) id xs h, List.map_id]

theorem mem_of_list? {item : Json → Option α} {j : Json} {xs : List α}
    (h : j.list? item = some xs) : ∀ x ∈ xs, ∃ y, item y = some x := by
  obtain ⟨items, _, hitems⟩ := Option.bind_eq_some_iff.mp h
  intro x hx
  obtain ⟨y, _, hy⟩ := mem_of_option_mapM hitems x hx
  exact ⟨y, hy⟩

end

theorem integer?_ofInt {low high i : Int} (h : low ≤ i ∧ i ≤ high) :
    (ofInt i).integer? low high = some i :=
  if_pos h

theorem natural?_ofNat {bits n : Nat} (h : n < 2 ^ bits) : (ofNat n).natural? bits = some n := by
  have hrange : (0 : Int) ≤ n ∧ (n : Int) ≤ 2 ^ bits - 1 := by
    have hcast : ((2 ^ bits : Nat) : Int) = 2 ^ bits := by simp
    omega
  exact congrArg (Option.map Int.toNat) (integer?_ofInt hrange)

theorem mem_of_integer? {low high i : Int} {j : Json} (h : j.integer? low high = some i) :
    low ≤ i ∧ i ≤ high := by
  unfold integer? at h
  split at h
  · split at h
    · cases h
      assumption
    · cases h
  · cases h

theorem lt_of_natural? {bits n : Nat} {j : Json} (h : j.natural? bits = some n) : n < 2 ^ bits := by
  obtain ⟨i, hi, rfl⟩ := Option.map_eq_some_iff.mp h
  have hrange := mem_of_integer? hi
  have hcast : ((2 ^ bits : Nat) : Int) = 2 ^ bits := by simp
  omega

theorem depth_lt_of_mem_array {j : Json} {items : List Json} (h : j ∈ items) :
    j.depth < (array items).depth := by
  have hle : j.depth ≤ depthOfItems items := by
    induction items with
    | nil => cases h
    | cons first rest ih =>
      rw [depthOfItems]
      rcases List.mem_cons.mp h with rfl | h
      · omega
      · have := ih h
        omega
  rw [depth]
  omega

theorem depth_lt_of_mem_object (key : String) {j : Json} {members : List (String × Json)}
    (h : (key, j) ∈ members) : j.depth < (object members).depth := by
  have hle : j.depth ≤ depthOfMembers members := by
    induction members with
    | nil => cases h
    | cons first rest ih =>
      obtain ⟨key', j'⟩ := first
      rw [depthOfMembers]
      rcases List.mem_cons.mp h with heq | h
      · cases heq
        omega
      · have := ih h
        omega
  rw [depth]
  omega

/-- The content of a choice is less deeply nested than the choice. -/
theorem depth_content_lt {tag : String} {content : Json} {fuel : Nat}
    (h : (tagged tag content).depth < fuel + 1) : content.depth < fuel :=
  Nat.lt_of_lt_of_le (depth_lt_of_mem_object tag (List.mem_singleton.mpr rfl))
    (Nat.le_of_lt_succ h)

/-! ## Values of a text -/

/-- The whole numbers in the value have 64 bits, with or without a sign. -/
inductive Sized : Json → Prop
  | null : Sized .null
  | bool (b : Bool) : Sized (.bool b)
  | integer (i : Int) (h : -2 ^ 63 ≤ i ∧ i < 2 ^ 64) : Sized (.number (.integer i))
  | float (x : Binary64) : Sized (.number (.float x))
  | string (s : String) : Sized (.string s)
  | array (items : List Json) (h : ∀ j ∈ items, Sized j) : Sized (.array items)
  | object (members : List (String × Json)) (h : ∀ m ∈ members, Sized m.2) :
      Sized (.object members)
  | unreadable : Sized .unreadable

attribute [simp] Sized.null Sized.bool Sized.float Sized.string Sized.unreadable

@[simp] theorem sized_integer {i : Int} :
    (number (.integer i)).Sized ↔ -2 ^ 63 ≤ i ∧ i < 2 ^ 64 :=
  ⟨fun | .integer _ h => h, .integer i⟩

@[simp] theorem sized_array {items : List Json} : (array items).Sized ↔ ∀ j ∈ items, j.Sized :=
  ⟨fun | .array _ h => h, .array items⟩

@[simp] theorem sized_object {members : List (String × Json)} :
    (object members).Sized ↔ ∀ m ∈ members, m.2.Sized :=
  ⟨fun | .object _ h => h, .object members⟩

@[simp] theorem sized_tagged {tag : String} {content : Json} :
    (tagged tag content).Sized ↔ content.Sized := by
  simp [tagged]

theorem sized_ofNat {n : Nat} (h : n < 2 ^ 64) : (ofNat n).Sized :=
  .integer n (by omega)

theorem Sized.item {j item : Json} {items : List Json} (h : j.Sized) (hj : j.array? = some items)
    (hitem : item ∈ items) : item.Sized := by
  cases j with
  | array _ =>
    cases hj
    exact sized_array.mp h item hitem
  | _ => cases hj

/-- What a list is read from are values of the same text. -/
theorem Sized.of_list? {α : Type} {item : Json → Option α} {j : Json} {xs : List α} (h : j.Sized)
    (hj : j.list? item = some xs) : ∀ x ∈ xs, ∃ y : Json, y.Sized ∧ item y = some x := by
  obtain ⟨items, harray, hitems⟩ := Option.bind_eq_some_iff.mp hj
  intro x hx
  obtain ⟨y, hmem, hy⟩ := mem_of_option_mapM hitems x hx
  exact ⟨y, h.item harray hmem, hy⟩

theorem Sized.content {j content : Json} {tag : String} (h : j.Sized)
    (hj : j.variant? = some (tag, some content)) : content.Sized := by
  unfold variant? at hj
  split at hj
  · cases hj
  · cases hj
    exact sized_object.mp h _ (List.mem_singleton.mpr rfl)
  · cases hj

/-- A member that is read from an object is one of its members. -/
theorem mem_of_unique? {members : List (String × Json)} {key : String} {part : Json}
    (h : unique? members key = some (some part)) : ∃ m ∈ members, m.2 = part := by
  have hmem : part ∈ membersOf members key := by
    unfold unique? at h
    split at h
    · cases h
    · cases h
      simp_all
    · cases h
  obtain ⟨m, hm, rfl⟩ := List.mem_map.mp hmem
  exact ⟨m, List.mem_of_mem_filter hm, rfl⟩

theorem Sized.part {j part : Json} {keys : List String} {parts : List (Option Json)} (h : j.Sized)
    (hj : j.record? keys = some parts) (hpart : some part ∈ parts) : part.Sized := by
  cases j with
  | array items =>
    rw [record?] at hj
    split at hj
    · cases hj
      rcases List.mem_append.mp hpart with hitem | hnone
      · obtain ⟨item, hitem, heq⟩ := List.mem_map.mp hitem
        cases heq
        exact sized_array.mp h _ hitem
      · exact absurd (List.eq_of_mem_replicate hnone) (by simp)
    · cases hj
  | object members =>
    obtain ⟨key, _, hkey⟩ := mem_of_option_mapM hj _ hpart
    obtain ⟨m, hm, rfl⟩ := mem_of_unique? hkey
    exact sized_object.mp h m hm
  | _ => cases hj

/-- The numbers of a text are finite. -/
theorem Sized.isFinite {j : Json} {x : Binary64} (h : j.Sized) (hj : j.number? = some x) :
    x.isFinite := by
  unfold number? at hj
  split at hj
  · cases hj
    exact Binary64.isFinite_ofInt (sized_integer.mp h)
  · split at hj
    · cases hj
      assumption
    · cases hj
  · cases hj

end Json

end InteropGen

import Mathlib.Tactic.SplitIfs
import InteropGen.Proofs.Dimensions
import InteropGen.Proofs.Resolution

/-!
# Element counts

An array type is checked with the dimensions of all its directly nested arrays. Where the check
accepts or rejects them, it does so by their product over the natural numbers.

* `checkDims_cases` — the check gives a count, or it names all dimensions that it rejects;
* `dimensions_counted` — when it does which, for the dimensions that nested arrays have together.
-/

set_option autoImplicit false

namespace InteropGen

/-- What is rejected is reported with all dimensions. -/
theorem checkDims_cases (site : Site) (dims : List Nat) :
    (∃ n, checkDims site dims = .ok n) ∨
      checkDims site dims = .error (.invalidDimensions site dims) := by
  unfold checkDims
  split_ifs
  · exact .inr rfl
  · split
    · split_ifs
      · exact .inl ⟨_, rfl⟩
      · exact .inr rfl
    · exact .inr rfl

/-- Dimensions that are valid are those of at most `2 ^ 31 - 1` elements. -/
theorem validDims_iff (dims : List Nat) :
    ValidDims dims ↔ dims ≠ [] ∧ (∀ d ∈ dims, 0 < d) ∧ dims.prod ≤ 2 ^ 31 - 1 := by
  constructor
  · rintro ⟨nonempty, positive, hcount⟩
    exact ⟨nonempty, positive, by omega⟩
  · rintro ⟨nonempty, positive, hcount⟩
    exact ⟨nonempty, positive, by omega⟩

/-- **Counting elements.** Let a type be an array. It is checked with the dimensions of all its
directly nested arrays, outermost first. The check gives their product over the natural numbers if
there is a dimension, all are positive and the product is at most `2 ^ 31 - 1`; in every other case
it rejects them and names them all. That multiplying stops at the first intermediate product that
does not fit in 64 bits has no part in this: what it counts to the end is the product. -/
theorem dimensions_counted (site : Site) {type : TypeNode} {element : Shape} {dims : List Nat}
    (h : type.shape = .array element dims) :
    (∃ nest rest, nest ≠ [] ∧ type.ArraysDownTo nest rest ∧ nest.flatten = dims) ∧
    (∀ n, checkDims site dims = .ok n ↔
      dims ≠ [] ∧ (∀ d ∈ dims, 0 < d) ∧ n = dims.prod ∧ n ≤ 2 ^ 31 - 1) ∧
    (¬ (dims ≠ [] ∧ (∀ d ∈ dims, 0 < d) ∧ dims.prod ≤ 2 ^ 31 - 1) →
      checkDims site dims = .error (.invalidDimensions site dims)) ∧
    ∀ n, elementCount dims = some n ↔
      n = dims.prod ∧ ∀ front, front <+: dims → front.prod < 2 ^ 64 := by
  have hok : ∀ n, checkDims site dims = .ok n ↔
      dims ≠ [] ∧ (∀ d ∈ dims, 0 < d) ∧ n = dims.prod ∧ n ≤ 2 ^ 31 - 1 := fun n => by
    rw [checkDims_ok_iff, validDims_iff]
    constructor
    · rintro ⟨⟨nonempty, positive, hcount⟩, rfl⟩
      exact ⟨nonempty, positive, rfl, hcount⟩
    · rintro ⟨nonempty, positive, rfl, hcount⟩
      exact ⟨⟨nonempty, positive, hcount⟩, rfl⟩
  refine ⟨?_, hok, fun hinvalid => ?_, elementCount_eq_some_iff dims⟩
  · obtain ⟨rest, hresolve⟩ := type.exists_resolve_of_shape h
    obtain ⟨nest, hsome, hnest, hdims⟩ := (type.resolve_eq_array_iff rest dims).mp hresolve
    exact ⟨nest, rest, hsome, hnest, hdims⟩
  · obtain ⟨n, haccepted⟩ | hrejected := checkDims_cases site dims
    · obtain ⟨nonempty, positive, rfl, hcount⟩ := (hok n).mp haccepted
      exact absurd ⟨nonempty, positive, hcount⟩ hinvalid
    · exact hrejected

namespace Quarry

def block : TypeNode :=
  .alias ⟨.ofSegments ["Quarry", "Block"], .fixedArray (.primitive .i32) [65536, 65536]⟩

/-- The product of the dimensions is `2 ^ 64`, which 64 bits would wrap to zero. -/
def heap : TypeNode := .fixedArray block [65536, 65536]

/-- The greatest number of elements that two neighbouring dimensions can have. -/
def layer : TypeNode := .fixedArray (.primitive .i32) [46341, 46340]

def site : Site := ⟨"Quarry::Pit", "stones"⟩

theorem shape_heap : heap.shape = .array (.primitive .i32) [65536, 65536, 65536, 65536] := rfl

theorem shape_layer : layer.shape = .array (.primitive .i32) [46341, 46340] := rfl

end Quarry

theorem quarry_counted :
    Quarry.heap.shape = .array (.primitive .i32) [65536, 65536, 65536, 65536] ∧
    checkDims Quarry.site [65536, 65536, 65536, 65536] =
      .error (.invalidDimensions Quarry.site [65536, 65536, 65536, 65536]) ∧
    checkDims Quarry.site [46341, 46340] = .ok 2147441940 := by
  obtain ⟨-, -, hrejected, -⟩ :=
    dimensions_counted Quarry.site Quarry.shape_heap
  obtain ⟨-, haccepted, -, -⟩ :=
    dimensions_counted Quarry.site Quarry.shape_layer
  exact ⟨Quarry.shape_heap, hrejected (by decide), (haccepted _).mpr (by decide)⟩

end InteropGen

/-!
# Scoped names

A declaration is named by a path of segments: modules first, its own name last. The module holds
the type, the reading of the `A::B::C` form, and the spellings that generated code uses.

* segments are never empty, whatever list or text a name is built from (`ScopedName.nonempty`);
* `ScopedName.parse` cuts a text at every `::`, leftmost first, so `A:::B` has the segments `A`
  and `:B`.
-/

set_option autoImplicit false

namespace InteropGen

/-- The pieces of a text between its `::` separators, leftmost separator first. -/
def splitScopes : List Char → List (List Char)
  | [] => [[]]
  | ':' :: ':' :: rest => [] :: splitScopes rest
  | c :: rest =>
    match splitScopes rest with
    | [] => [[c]]
    | piece :: pieces => (c :: piece) :: pieces

/-- A path of non-empty segments, outermost module first. -/
structure ScopedName where
  segments : List String
  nonempty : ∀ s ∈ segments, s ≠ ""
  deriving DecidableEq

namespace ScopedName

/-- The name with the given segments; empty ones are dropped. -/
def ofSegments (segments : List String) : ScopedName where
  segments := segments.filter (· ≠ "")
  nonempty := by simp

instance : Inhabited ScopedName := ⟨ofSegments []⟩

/-- Reads the `A::B::C` form. -/
def parse (text : String) : ScopedName :=
  ofSegments ((splitScopes text.toList).map String.ofList)

/-- The last segment, empty for a name without segments. -/
def short (n : ScopedName) : String :=
  n.segments.getLastD ""

/-- The `A::B::C` form. -/
def qualified (n : ScopedName) : String :=
  "::".intercalate n.segments

/-- The type path `A.B.C` of generated code. -/
def dotted (n : ScopedName) : String :=
  ".".intercalate n.segments

/-- The form `A_B_C` that fits inside an identifier. -/
def methodSafe (n : ScopedName) : String :=
  "_".intercalate n.segments

/-- The enclosing namespace `A.B`, `none` at global scope. -/
def enclosing (n : ScopedName) : Option String :=
  match n.segments.dropLast with
  | [] => none
  | modules => some (".".intercalate modules)

/-- Segment lists compare lexicographically, a proper initial part first, and segments by code
point. -/
def segmentsLE : List String → List String → Bool
  | [], _ => true
  | _ :: _, [] => false
  | a :: as, b :: bs => if a = b then segmentsLE as bs else decide (a < b)

/-- The order of names. -/
def le (a b : ScopedName) : Bool :=
  segmentsLE a.segments b.segments

/-- Names in order; equal names keep their places. -/
def sort (names : List ScopedName) : List ScopedName :=
  names.mergeSort le

end ScopedName

end InteropGen

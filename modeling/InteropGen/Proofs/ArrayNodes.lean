import InteropGen.Proofs.Acceptance

/-!
# The array nodes of accepted structs

Dimensions are checked on shapes, where directly nested arrays are one array. The array nodes of the
type as it is written are all found there, as nothing else in an accepted field can hold an array.
The check says of each of them that none of its dimensions is zero. That a node has a dimension at
all it says only where the node is not merged with others.

* `TypeNode.mem_nest_iff` — on an accepted field, the array nodes that the type reaches are those
  that are merged into one array;
* `Generator.array_nodes` — what accepted structs guarantee of each node, and when each node has a
  dimension.
-/

set_option autoImplicit false

namespace InteropGen

/-- The node is met in the type on the way through typedefs, array elements and sequence elements.
Named structs and unions are not entered. -/
inductive TypeNode.Reaches (node : TypeNode) : TypeNode → Prop
  | here : Reaches node node
  | typedef (name : ScopedName) (target : TypeNode) :
      Reaches node target → Reaches node (.alias ⟨name, target⟩)
  | fixedArray (element : TypeNode) (dims : List Nat) :
      Reaches node element → Reaches node (.fixedArray element dims)
  | sequence (element : TypeNode) (maxBound : Nat) :
      Reaches node element → Reaches node (.sequence element maxBound)

/-- Every array node that the type reaches has a dimension, and none that is zero. -/
def TypeNode.ArraysWellFormed (type : TypeNode) : Prop :=
  ∀ element dims, TypeNode.Reaches (.fixedArray element dims) type → dims ≠ [] ∧ ∀ d ∈ dims, 0 < d

/-- The dimensions of the array nodes that are merged into one array, outermost node first. -/
def TypeNode.nest : TypeNode → List (List Nat)
  | .alias ⟨_, target⟩ => target.nest
  | .fixedArray element dims => dims :: element.nest
  | _ => []

namespace TypeNode

/-- The nest of an array is its dimensions, node by node; other types have none. -/
theorem shape_nest : (type : TypeNode) →
    (type.nest = [] ∧ ∀ element dims, type.shape ≠ .array element dims) ∨
      (type.nest ≠ [] ∧ ∃ element, type.shape = .array element type.nest.flatten)
  | .primitive _ | .narrowString | .wideString | .enum _ | .struct _ | .union _ | .sequence _ _ =>
    .inl ⟨rfl, nofun⟩
  | .alias ⟨_, target⟩ => target.shape_nest
  | .fixedArray element dims => by
    refine .inr ⟨List.cons_ne_nil _ _, ?_⟩
    obtain ⟨hnest, hshape⟩ | ⟨-, inner, hshape⟩ := element.shape_nest
    · refine ⟨element.shape, ?_⟩
      have hlone : Shape.arrayOf dims element.shape = .array element.shape dims := by
        cases h : element.shape with
        | array inner more => exact absurd h (hshape inner more)
        | _ => rfl
      simpa [shape, nest, hnest] using hlone
    · exact ⟨inner, by simp [shape, nest, hshape, Shape.arrayOf]⟩

theorem nest_eq_nil_of_isElement {type : TypeNode} (h : type.shape.IsElement) : type.nest = [] := by
  obtain ⟨hnest, -⟩ | ⟨-, element, hshape⟩ := type.shape_nest
  · exact hnest
  · rw [hshape] at h
    exact absurd h id

end TypeNode

/-- A collection whose elements are no collections, or no collection at all. -/
def Shape.IsShallow : Shape → Prop
  | .array element _ | .sequence element _ => element.IsElement
  | _ => True

theorem Shape.IsElement.isShallow {shape : Shape} (h : shape.IsElement) : shape.IsShallow := by
  cases shape with
  | array | sequence => exact absurd h id
  | _ => trivial

/-- What holds of a nest of arrays holds of the arrays inside. -/
theorem Shape.IsShallow.of_arrayOf {dims : List Nat} {element : Shape}
    (h : (Shape.arrayOf dims element).IsShallow) : element.IsShallow := by
  cases element with
  | array => exact h
  | sequence => exact absurd h id
  | _ => trivial

theorem TypeNode.Accepted.isShallow {type : TypeNode} {layout : Layout} {codec : Bool}
    (h : type.Accepted layout codec) : type.shape.IsShallow := by
  cases hshape : type.shape with
  | array element dims => exact (h.array element dims hshape).2.2.2
  | sequence element maxBound => exact (h.sequence element maxBound hshape).1
  | _ => trivial

namespace TypeNode

theorem reaches_of_mem_nest {dims : List Nat} :
    {type : TypeNode} → dims ∈ type.nest → ∃ element, Reaches (.fixedArray element dims) type
  | .primitive _, h | .narrowString, h | .wideString, h | .enum _, h | .struct _, h | .union _, h
  | .sequence _ _, h => absurd h List.not_mem_nil
  | .alias ⟨name, target⟩, h => by
    have htarget : dims ∈ target.nest := h
    obtain ⟨element, hreach⟩ := reaches_of_mem_nest htarget
    exact ⟨element, .typedef name target hreach⟩
  | .fixedArray inner outer, h => by
    obtain rfl | hinner := List.mem_cons.mp h
    · exact ⟨inner, .here⟩
    · obtain ⟨element, hreach⟩ := reaches_of_mem_nest hinner
      exact ⟨element, .fixedArray inner outer hreach⟩

/-- The way to an array node passes through typedefs and arrays only: a sequence on it would have a
collection for its element. -/
theorem mem_nest_of_reaches {type element : TypeNode} {dims : List Nat}
    (h : Reaches (.fixedArray element dims) type) (hshallow : type.shape.IsShallow) :
    dims ∈ type.nest := by
  induction h with
  | here => exact List.mem_cons_self
  | typedef name target _ ih => exact ih hshallow
  | fixedArray inner outer _ ih => exact List.mem_cons_of_mem _ (ih hshallow.of_arrayOf)
  | sequence inner maxBound _ ih =>
    have hinner : inner.shape.IsElement := hshallow
    have hmem := ih hinner.isShallow
    rw [nest_eq_nil_of_isElement hinner] at hmem
    cases hmem

theorem mem_nest_iff {type : TypeNode} (hshallow : type.shape.IsShallow) (dims : List Nat) :
    dims ∈ type.nest ↔ ∃ element, Reaches (.fixedArray element dims) type :=
  ⟨reaches_of_mem_nest, fun ⟨_, h⟩ => mem_nest_of_reaches h hshallow⟩

/-- The dimensions of an accepted field are valid as those of one array. -/
theorem Accepted.nest_valid {type : TypeNode} {layout : Layout} {codec : Bool}
    (h : type.Accepted layout codec) (hnest : type.nest ≠ []) : ValidDims type.nest.flatten := by
  obtain ⟨hnone, -⟩ | ⟨-, element, hshape⟩ := type.shape_nest
  · exact absurd hnone hnest
  · obtain ⟨nonempty, positive, count, -⟩ := h.array element _ hshape
    exact ⟨nonempty, positive, by omega⟩

theorem Accepted.nest_positive {type : TypeNode} {layout : Layout} {codec : Bool}
    (h : type.Accepted layout codec) {dims : List Nat} (hdims : dims ∈ type.nest) :
    ∀ d ∈ dims, 0 < d := fun d hd =>
  (h.nest_valid (List.ne_nil_of_mem hdims)).positive d (List.mem_flatten.mpr ⟨dims, hdims, hd⟩)

/-- The nodes of an accepted field are well-formed unless one of them has no dimension. -/
theorem Accepted.arraysWellFormed_iff {type : TypeNode} {layout : Layout} {codec : Bool}
    (h : type.Accepted layout codec) : type.ArraysWellFormed ↔ [] ∉ type.nest := by
  constructor
  · intro hformed hnone
    obtain ⟨element, hreach⟩ := reaches_of_mem_nest hnone
    exact (hformed element [] hreach).1 rfl
  · intro hsome element dims hreach
    have hmem := mem_nest_of_reaches hreach h.isShallow
    exact ⟨fun hempty => hsome (hempty ▸ hmem), h.nest_positive hmem⟩

/-- An array that is merged with no other has a dimension. -/
theorem Accepted.nil_notMem_nest {type : TypeNode} {layout : Layout} {codec : Bool}
    (h : type.Accepted layout codec) (hlone : type.nest.length ≤ 1) : [] ∉ type.nest := by
  intro hnone
  obtain ⟨dims, hnest⟩ : ∃ dims, type.nest = [dims] :=
    List.length_eq_one_iff.mp (Nat.le_antisymm hlone (List.length_pos_of_mem hnone))
  rw [hnest, List.mem_singleton] at hnone
  have hvalid := h.nest_valid (hnest ▸ List.cons_ne_nil _ _)
  exact hvalid.nonempty (by simp [hnest, ← hnone])

end TypeNode

namespace Generator

variable (g : Generator)

/-- **Array nodes.** Under valid settings, let a struct be accepted. The array nodes that a field
reaches are those of one nest. None of them has a dimension that is zero, and if there are any,
their dimensions taken together are those of an array that can be counted. So all of them are
well-formed exactly if none is without dimensions, and a node merged with no other always is. -/
theorem array_nodes {s : StructType} {out : DeclarationOutput}
    (hsettings : g.settings.check = .ok ()) (h : g.emit (.struct s) = .ok out) :
    ∀ f ∈ s.fields,
      (∀ dims, (∃ element, TypeNode.Reaches (.fixedArray element dims) f.type) ↔
        dims ∈ f.type.nest) ∧
      (∀ dims ∈ f.type.nest, ∀ d ∈ dims, 0 < d) ∧
      (f.type.nest ≠ [] → ValidDims f.type.nest.flatten) ∧
      (f.type.ArraysWellFormed ↔ [] ∉ f.type.nest) ∧
      (f.type.nest.length ≤ 1 → f.type.ArraysWellFormed) := by
  obtain ⟨layout, hlayout⟩ := List.exists_mem_of_ne_nil _ (Settings.targets_ne_nil hsettings)
  intro f hf
  have haccepted := (g.emit_struct_ok_iff s).mp ⟨out, h⟩ layout hlayout f hf
  have hformed := haccepted.arraysWellFormed_iff
  exact ⟨fun dims => (TypeNode.mem_nest_iff haccepted.isShallow dims).symm,
    fun _ hdims => haccepted.nest_positive hdims, haccepted.nest_valid, hformed,
    fun hlone => hformed.mpr (haccepted.nil_notMem_nest hlone)⟩

end Generator

namespace Chart

/-- A typedef of an array without dimensions, which no field could have by itself. -/
def row : TypeNode := .alias ⟨.ofSegments ["Chart", "Row"], .fixedArray (.primitive .f64) []⟩

def tile : TypeNode := .alias ⟨.ofSegments ["Chart", "Tile"], .fixedArray (.primitive .i32) [2, 3]⟩

/-- The array of rows is counted as an array of four numbers. -/
def grid : StructType :=
  ⟨.ofSegments ["Chart", "Grid"],
    [⟨"cells", .fixedArray row [4]⟩, ⟨"tiles", .fixedArray tile [5]⟩,
      ⟨"marks", .sequence (.primitive .u8) 0⟩], none⟩

def generator : Generator := ⟨{ Settings.default with targets := [.jagged] }, .empty⟩

end Chart

theorem chart_nodes :
    ∃ out, Chart.generator.emit (.struct Chart.grid) = .ok out ∧
      ∀ f ∈ Chart.grid.fields, (f.type.ArraysWellFormed ↔ f.name ≠ "cells") := by
  refine ⟨_, rfl, fun f hf => ?_⟩
  obtain ⟨-, -, -, hformed, -⟩ :=
    Chart.generator.array_nodes (s := Chart.grid) rfl rfl f hf
  rw [hformed]
  clear hformed
  revert f
  decide

/-- Under valid settings the struct is accepted, although it reaches an array node without
dimensions; alone in a field, such a node is rejected. -/
theorem chart_row_without_dimensions :
    Chart.generator.settings.check = .ok () ∧
      (∃ out, Chart.generator.emit (.struct Chart.grid) = .ok out) ∧
      (∃ f ∈ Chart.grid.fields, TypeNode.Reaches (.fixedArray (.primitive .f64) []) f.type) ∧
      Chart.generator.emit (.struct { Chart.grid with fields := [⟨"cells", Chart.row⟩] }) =
        .error (.invalidDimensions ⟨"Chart::Grid", "cells"⟩ []) :=
  ⟨rfl, ⟨_, rfl⟩,
    ⟨_, List.mem_cons_self, .fixedArray _ _ (.typedef _ _ .here)⟩, rfl⟩

end InteropGen

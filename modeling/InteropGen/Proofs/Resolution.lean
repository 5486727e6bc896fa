import InteropGen.Proofs.Acceptance

/-!
# Resolution

Code generation looks at the shape of a type, in which nothing is written as a typedef at any depth.
A shape comes about in steps. Each of them resolves one type: typedefs are followed to the first
other node, arrays that are directly nested are merged, and the element of a collection is left as
it is written, to be resolved in its turn.

* `TypeNode.unalias_eq_iff` — the node that typedefs lead to;
* `TypeNode.merge_eq` — the loop that merges arrays, by the arrays that are still to come;
* `TypeNode.resolve_eq_array_iff` — which types are arrays, of which elements and dimensions;
* `TypeNode.resolution` — the step as a whole, and that shapes come about by it.

No stage of the generator runs `TypeNode.resolve` or `TypeNode.merge`: the stages dispatch on the
shape of a field, which is resolved once and at every depth. `TypeNode.resolve_shape` and
`TypeNode.resolve_element?` say that a stage that resolved each type when it comes to it would find the
same shapes and name the same elements.
-/

set_option autoImplicit false

namespace InteropGen

/-- A type without typedefs around it and without arrays directly nested in it. The element of a
collection is as it is written. -/
inductive Resolved where
  | primitive (kind : PrimitiveKind)
  | string (kind : StringKind)
  | enum (type : EnumType)
  | struct (type : StructType)
  | union (type : UnionType)
  | array (element : TypeNode) (dims : List Nat)
  | sequence (element : TypeNode) (maxBound : Nat)

namespace Resolved

/-- The shape of a resolved type: the element is resolved too. -/
def shape : Resolved → Shape
  | .primitive kind => .primitive kind
  | .string kind => .string kind
  | .enum e => .enum e
  | .struct s => .struct s
  | .union u => .union u
  | .array element dims => .array element.shape dims
  | .sequence element maxBound => .sequence element.shape maxBound

/-- The element of a collection. -/
def element? : Resolved → Option TypeNode
  | .array element _ | .sequence element _ => some element
  | _ => none

end Resolved

namespace TypeNode

/-- Takes arrays off an element as long as there are any, and appends their dimensions to the ones
that were taken off before. Typedefs lead from the element to the node that is looked at. -/
def merge (dims : List Nat) (element : TypeNode) : (node : TypeNode) → Resolved
  | .alias ⟨_, target⟩ => merge dims element target
  | .fixedArray inner more => merge (dims ++ more) inner inner
  | _ => .array element dims

/-- Resolves a type. -/
def resolve : TypeNode → Resolved
  | .alias ⟨_, target⟩ => target.resolve
  | .primitive kind => .primitive kind
  | .narrowString => .string .narrow
  | .wideString => .string .wide
  | .enum e => .enum e
  | .struct s => .struct s
  | .union u => .union u
  | .fixedArray element dims => merge dims element element
  | .sequence element maxBound => .sequence element maxBound

/-! ## Typedefs -/

/-- Typedefs, and nothing else, lead from the second type to the first. -/
inductive IsBehind (target : TypeNode) : TypeNode → Prop
  | here : IsBehind target target
  | typedef (name : ScopedName) (type : TypeNode) :
      IsBehind target type → IsBehind target (.alias ⟨name, type⟩)

theorem isBehind_unalias : (node : TypeNode) → node.unalias.IsBehind node
  | .alias ⟨name, target⟩ => .typedef name target (isBehind_unalias target)
  | .primitive _ | .narrowString | .wideString | .enum _ | .struct _ | .union _
  | .fixedArray _ _ | .sequence _ _ => .here

theorem unalias_ne_alias : (node : TypeNode) → ∀ a, node.unalias ≠ .alias a
  | .alias ⟨_, target⟩ => unalias_ne_alias target
  | .primitive _ | .narrowString | .wideString | .enum _ | .struct _ | .union _
  | .fixedArray _ _ | .sequence _ _ => nofun

theorem unalias_of_ne_alias : {node : TypeNode} → (∀ a, node ≠ .alias a) → node.unalias = node
  | .alias a, h => absurd rfl (h a)
  | .primitive _, _ | .narrowString, _ | .wideString, _ | .enum _, _ | .struct _, _ | .union _, _
  | .fixedArray _ _, _ | .sequence _ _, _ => rfl

theorem IsBehind.unalias_eq {target node : TypeNode} (h : target.IsBehind node) :
    node.unalias = target.unalias := by
  induction h with
  | here => rfl
  | typedef name type _ ih => exact ih

/-- There is one node behind the typedefs that is none itself. -/
theorem unalias_eq_iff (node target : TypeNode) :
    node.unalias = target ↔ target.IsBehind node ∧ ∀ a, target ≠ .alias a := by
  constructor
  · rintro rfl
    exact ⟨node.isBehind_unalias, node.unalias_ne_alias⟩
  · rintro ⟨hbehind, hnode⟩
    rw [hbehind.unalias_eq, unalias_of_ne_alias hnode]

@[simp] theorem unalias_unalias (node : TypeNode) : node.unalias.unalias = node.unalias :=
  unalias_of_ne_alias node.unalias_ne_alias

theorem resolve_unalias : (node : TypeNode) → node.unalias.resolve = node.resolve
  | .alias ⟨_, target⟩ => resolve_unalias target
  | .primitive _ | .narrowString | .wideString | .enum _ | .struct _ | .union _
  | .fixedArray _ _ | .sequence _ _ => rfl

/-! ## Arrays that are merged -/

/-- A type and the arrays that are taken off it, given by their dimensions, the outermost first. What
is left is the first element that is no array. -/
inductive ArraysDownTo : TypeNode → List (List Nat) → TypeNode → Prop
  | done {node : TypeNode} :
      (∀ element dims, node.unalias ≠ .fixedArray element dims) → ArraysDownTo node [] node
  | array {node element rest : TypeNode} {dims : List Nat} {nest : List (List Nat)} :
      node.unalias = .fixedArray element dims → ArraysDownTo element nest rest →
        ArraysDownTo node (dims :: nest) rest

/-- The arrays can be taken off in one way only. -/
theorem ArraysDownTo.unique {node rest rest' : TypeNode} {nest nest' : List (List Nat)}
    (h : node.ArraysDownTo nest rest) (h' : node.ArraysDownTo nest' rest') :
    nest = nest' ∧ rest = rest' := by
  induction h generalizing nest' with
  | done hnone =>
    cases h' with
    | done => exact ⟨rfl, rfl⟩
    | array hnode => exact absurd hnode (hnone _ _)
  | array hnode _ ih =>
    cases h' with
    | done hnone => exact absurd hnode (hnone _ _)
    | array hnode' hrest =>
      rw [hnode, fixedArray.injEq] at hnode'
      obtain ⟨rfl, rfl⟩ := hnode'
      obtain ⟨rfl, rfl⟩ := ih hrest
      exact ⟨rfl, rfl⟩

/-- What is left is no array, whatever typedefs it is written with. -/
theorem ArraysDownTo.not_array {node rest : TypeNode} {nest : List (List Nat)}
    (h : node.ArraysDownTo nest rest) : ∀ element dims, rest.unalias ≠ .fixedArray element dims := by
  induction h with
  | done hnone => exact hnone
  | array _ _ ih => exact ih

/-- Some arrays are taken off exactly if the type is an array. -/
theorem ArraysDownTo.ne_nil_iff {node rest : TypeNode} {nest : List (List Nat)}
    (h : node.ArraysDownTo nest rest) :
    nest ≠ [] ↔ ∃ element dims, node.unalias = .fixedArray element dims := by
  cases h with
  | done hnone =>
    exact iff_of_false (absurd rfl) fun ⟨element, dims, hnode⟩ => hnone element dims hnode
  | array hnode _ => exact iff_of_true (List.cons_ne_nil _ _) ⟨_, _, hnode⟩

/-- Induction on the node that is looked at. Before every round the dimensions of the arrays that
are still to come are missing, and the element is the one they are taken off. -/
theorem merge_eq (dims : List Nat) (written : TypeNode) :
    (node : TypeNode) → node.unalias = written.unalias →
      ∃ nest rest, written.ArraysDownTo nest rest ∧
        merge dims written node = .array rest (dims ++ nest.flatten)
  | .alias ⟨_, target⟩, h => merge_eq dims written target h
  | .fixedArray inner more, h => by
    obtain ⟨nest, rest, hnest, hmerge⟩ := merge_eq (dims ++ more) inner inner rfl
    exact ⟨more :: nest, rest, .array h.symm hnest, by simp [merge, hmerge]⟩
  | .primitive _, h | .narrowString, h | .wideString, h | .enum _, h | .struct _, h | .union _, h
  | .sequence _ _, h => by
    refine ⟨[], written, .done fun element dims harray => ?_, by simp [merge]⟩
    rw [← h] at harray
    cases harray

theorem resolve_of_fixedArray {node element : TypeNode} {dims : List Nat}
    (h : node.unalias = .fixedArray element dims) :
    ∃ nest rest, node.ArraysDownTo nest rest ∧ node.resolve = .array rest nest.flatten := by
  obtain ⟨nest, rest, hnest, hmerge⟩ := merge_eq dims element element rfl
  exact ⟨dims :: nest, rest, .array h hnest, by rw [← resolve_unalias, h]; exact hmerge⟩

theorem fixedArray_of_resolve {element : TypeNode} {dims : List Nat} :
    (node : TypeNode) → node.resolve = .array element dims →
      ∃ inner outer, node.unalias = .fixedArray inner outer
  | .alias ⟨_, target⟩, h => fixedArray_of_resolve target h
  | .fixedArray inner outer, _ => ⟨inner, outer, rfl⟩

/-- A resolved array has the dimensions of all arrays that are directly nested, and its element is
what is left of them. -/
theorem resolve_eq_array_iff (node element : TypeNode) (dims : List Nat) :
    node.resolve = .array element dims ↔
      ∃ nest, nest ≠ [] ∧ node.ArraysDownTo nest element ∧ nest.flatten = dims := by
  constructor
  · intro h
    obtain ⟨inner, outer, hnode⟩ := fixedArray_of_resolve node h
    obtain ⟨nest, rest, hnest, hresolve⟩ := resolve_of_fixedArray hnode
    rw [hresolve, Resolved.array.injEq] at h
    obtain ⟨rfl, hdims⟩ := h
    exact ⟨nest, hnest.ne_nil_iff.mpr ⟨inner, outer, hnode⟩, hnest, hdims⟩
  · rintro ⟨nest, hsome, hnest, rfl⟩
    obtain ⟨inner, outer, hnode⟩ := hnest.ne_nil_iff.mp hsome
    obtain ⟨nest', rest, hnest', hresolve⟩ := resolve_of_fixedArray hnode
    obtain ⟨rfl, rfl⟩ := hnest.unique hnest'
    exact hresolve

theorem resolve_isArray_iff (node : TypeNode) :
    (∃ element dims, node.resolve = .array element dims) ↔
      ∃ element dims, node.unalias = .fixedArray element dims := by
  constructor
  · rintro ⟨element, dims, h⟩
    exact fixedArray_of_resolve _ h
  · rintro ⟨element, dims, h⟩
    obtain ⟨nest, rest, _, hresolve⟩ := resolve_of_fixedArray h
    exact ⟨rest, nest.flatten, hresolve⟩

/-- The element of a resolved array does not resolve to an array. -/
theorem resolve_element_ne_array {node element : TypeNode} {dims : List Nat}
    (h : node.resolve = .array element dims) : ∀ inner more, element.resolve ≠ .array inner more := by
  intro inner more helement
  obtain ⟨nest, _, hnest, _⟩ := (resolve_eq_array_iff node element dims).mp h
  obtain ⟨inner', more', harray⟩ := fixedArray_of_resolve element helement
  exact hnest.not_array inner' more' harray

/-! ## Shapes -/

/-- Merging on the way down gives what merging on the way up does. -/
theorem merge_shape (dims : List Nat) (written : TypeNode) :
    (node : TypeNode) → node.shape = written.shape →
      (merge dims written node).shape = Shape.arrayOf dims node.shape
  | .alias ⟨_, target⟩, h => merge_shape dims written target h
  | .fixedArray inner more, _ => by
    have hinner := merge_shape (dims ++ more) inner inner rfl
    rw [merge, hinner, shape]
    cases inner.shape <;> simp [Shape.arrayOf]
  | .primitive _, h | .narrowString, h | .wideString, h | .enum _, h | .struct _, h | .union _, h
  | .sequence _ _, h => congrArg (Shape.array · dims) h.symm

theorem merge_element? (dims : List Nat) (written : TypeNode) :
    (node : TypeNode) → (merge dims written node).element? = some (innermost written node)
  | .alias ⟨_, target⟩ => merge_element? dims written target
  | .fixedArray inner more => merge_element? (dims ++ more) inner inner
  | .primitive _ | .narrowString | .wideString | .enum _ | .struct _ | .union _
  | .sequence _ _ => rfl

/-- A shape is what resolution gives at every depth. -/
theorem resolve_shape : (node : TypeNode) → node.resolve.shape = node.shape
  | .alias ⟨_, target⟩ => resolve_shape target
  | .fixedArray element dims => merge_shape dims element element rfl
  | .primitive _ | .narrowString | .wideString | .enum _ | .struct _ | .union _
  | .sequence _ _ => rfl

/-- A type whose shape is an array resolves to one with the same dimensions. -/
theorem exists_resolve_of_shape {node : TypeNode} {element : Shape} {dims : List Nat}
    (h : node.shape = .array element dims) : ∃ written, node.resolve = .array written dims := by
  rw [← resolve_shape] at h
  cases hresolve : node.resolve with
  | array written more =>
    rw [hresolve, Resolved.shape, Shape.array.injEq] at h
    exact ⟨written, by rw [h.2]⟩
  | _ =>
    rw [hresolve] at h
    cases h

theorem resolve_element? : (node : TypeNode) → node.resolve.element? = node.element?
  | .alias ⟨_, target⟩ => resolve_element? target
  | .fixedArray element dims => merge_element? dims element element
  | .primitive _ | .narrowString | .wideString | .enum _ | .struct _ | .union _
  | .sequence _ _ => rfl

/-- **Resolution.** Behind the typedefs of a type there is one node that is no typedef, and it is
resolved as the type is. The result is an array exactly if that node is one; its dimensions are those
of all arrays that are directly nested, from the outermost to the last before the first element that
is none, which is its element and never resolves to an array. A union is found exactly if typedefs
and elements lead to it. Shapes, and the elements that messages name, are those of resolved types. -/
theorem resolution (node : TypeNode) :
    (∀ target, node.unalias = target ↔ target.IsBehind node ∧ ∀ a, target ≠ .alias a) ∧
    node.resolve = node.unalias.resolve ∧
    ((∃ element dims, node.resolve = .array element dims) ↔
      ∃ element dims, node.unalias = .fixedArray element dims) ∧
    (∀ element dims, node.resolve = .array element dims ↔
      ∃ nest, nest ≠ [] ∧ node.ArraysDownTo nest element ∧ nest.flatten = dims) ∧
    (¬ ∃ element dims inner more,
      node.resolve = .array element dims ∧ element.resolve = .array inner more) ∧
    (∀ u, node.findUnion = some u ↔ node.LeadsTo u) ∧
    node.shape = node.resolve.shape ∧ node.element? = node.resolve.element? :=
  ⟨node.unalias_eq_iff, node.resolve_unalias.symm, node.resolve_isArray_iff,
    node.resolve_eq_array_iff,
    fun ⟨_, _, inner, more, harray, helement⟩ =>
      resolve_element_ne_array harray inner more helement,
    fun u => findUnion_eq_some_iff u node, node.resolve_shape.symm, node.resolve_element?.symm⟩

end TypeNode

end InteropGen

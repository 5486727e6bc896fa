import InteropGen.TypeGraph.Basic

/-!
# Shapes of types

What a type is once typedefs are followed and nested arrays are merged, at every depth. Code
generation looks at shapes only, so that it cannot treat a typedef differently from its target;
the type as it is written is kept for messages.

* `TypeNode.shape` has no typedef case (`Shape` has none), and an array of arrays is one array with
  the dimensions of both, outermost first (`Shape.arrayOf`).
* `Shape.findUnion` looks through arrays and sequences, not into named structs, and so does
  `TypeNode.findUnion` (`TypeNode.findUnion_shape`).
-/

set_option autoImplicit false

namespace InteropGen

/-- Narrow strings are bytes of the platform's code page, wide strings its wide characters. -/
inductive StringKind where
  | narrow | wide
  deriving DecidableEq, Repr

/-- A type without typedefs and without directly nested arrays. -/
inductive Shape where
  | primitive (kind : PrimitiveKind)
  | string (kind : StringKind)
  | enum (type : EnumType)
  | struct (type : StructType)
  | union (type : UnionType)
  /-- A fixed array with all its dimensions, outermost first. -/
  | array (element : Shape) (dims : List Nat)
  /-- A sequence; the bound `0` stands for none. -/
  | sequence (element : Shape) (maxBound : Nat)

namespace Shape

/-- An array with the given dimensions; those of an element that is an array itself follow them. -/
def arrayOf (dims : List Nat) : Shape → Shape
  | .array element more => .array element (dims ++ more)
  | element => .array element dims

/-- The union that a shape leads to through arrays and sequences. -/
def findUnion : Shape → Option UnionType
  | .union u => some u
  | .array element _ => element.findUnion
  | .sequence element _ => element.findUnion
  | _ => none

theorem findUnion_arrayOf (dims : List Nat) (shape : Shape) :
    (arrayOf dims shape).findUnion = shape.findUnion := by
  cases shape <;> rfl

end Shape

namespace TypeNode

/-- Follows typedefs up to the first other node. -/
def unalias : TypeNode → TypeNode
  | .alias ⟨_, target⟩ => target.unalias
  | node => node

/-- The shape of a type. -/
def shape : TypeNode → Shape
  | .alias ⟨_, target⟩ => target.shape
  | .primitive kind => .primitive kind
  | .narrowString => .string .narrow
  | .wideString => .string .wide
  | .enum e => .enum e
  | .struct s => .struct s
  | .union u => .union u
  | .fixedArray element dims => Shape.arrayOf dims element.shape
  | .sequence element bound => .sequence element.shape bound

/-- The union that a type leads to through typedefs, arrays and sequences. -/
def findUnion : TypeNode → Option UnionType
  | .union u => some u
  | .alias ⟨_, target⟩ => target.findUnion
  | .fixedArray element _ => element.findUnion
  | .sequence element _ => element.findUnion
  | .primitive _ | .narrowString | .wideString | .enum _ | .struct _ => none

/-- A type and its shape lead to the same union. -/
theorem findUnion_shape : (node : TypeNode) → node.shape.findUnion = node.findUnion
  | .alias ⟨_, target⟩ => findUnion_shape target
  | .fixedArray element dims =>
    (Shape.findUnion_arrayOf dims element.shape).trans (findUnion_shape element)
  | .sequence element _ => findUnion_shape element
  | .union _ | .primitive _ | .narrowString | .wideString | .enum _ | .struct _ => rfl

/-- What remains of a type when the arrays that it leads to are taken off: `written` itself if
`node`, reached from it by typedefs, is no array. -/
def innermost (written : TypeNode) : (node : TypeNode) → TypeNode
  | .alias ⟨_, target⟩ => innermost written target
  | .fixedArray element _ => innermost element element
  | _ => written

/-- The element of a collection as it is written; of nested arrays, the innermost element. -/
def element? : TypeNode → Option TypeNode
  | .alias ⟨_, target⟩ => target.element?
  | .fixedArray element _ => some (innermost element element)
  | .sequence element _ => some element
  | _ => none

/-- A type as messages name it: as it is written, a typedef by its own name. -/
def describe : TypeNode → String
  | .primitive kind => kind.name
  | .narrowString => "string"
  | .wideString => "wstring"
  | .enum e => "enum " ++ e.name.qualified
  | .struct s => "struct " ++ s.name.qualified
  | .union u => "union " ++ u.name.qualified
  | .alias a => "typedef " ++ a.name.qualified
  | .fixedArray element dims =>
    element.describe ++ String.join (dims.map fun d => "[" ++ toString d ++ "]")
  | .sequence element bound =>
    if bound = 0 then "sequence<" ++ element.describe ++ ">"
    else "sequence<" ++ element.describe ++ ", " ++ toString bound ++ ">"

end TypeNode

end InteropGen

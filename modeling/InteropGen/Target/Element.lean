import InteropGen.Diagnostic
import InteropGen.TypeGraph.Shape

/-!
# Fields and their elements

A field as code generation sees it, the kinds of element that a collection may have, and the rule
on array dimensions.

* `Element.classify` accepts primitives, strings, enums and structs, and nothing else.
* `checkDims` accepts a non-empty list of positive dimensions whose product is below `2 ^ 31`, and
  returns that product.
-/

set_option autoImplicit false

namespace InteropGen

/-- A field by its place and shape. The two texts are for messages only. -/
structure FieldView where
  site : Site
  shape : Shape
  /-- The type as it is written. -/
  typeText : String
  /-- The element of a collection as it is written. -/
  elementText : String

/-- The view of a field of the named declaration. -/
def FieldView.of (declaration : String) (field : Field) : FieldView where
  site := ⟨declaration, field.name⟩
  shape := field.type.shape
  typeText := field.type.describe
  elementText := (field.type.element?.getD field.type).describe

/-- The error that a field reaches a union. -/
def Site.unionError (site : Site) (u : UnionType) : GenError :=
  .unsupportedUnion site.declaration u.name.qualified

/-- What a collection may hold. -/
inductive Element where
  | primitive (kind : PrimitiveKind)
  | string (kind : StringKind)
  | enum (type : EnumType)
  | struct (type : StructType)

/-- The element that a shape is; `written` names it in messages. -/
def Element.classify (site : Site) (container : Container) (written : String) :
    Shape → Except GenError Element
  | .primitive kind => .ok (.primitive kind)
  | .string kind => .ok (.string kind)
  | .enum e => .ok (.enum e)
  | .struct s => .ok (.struct s)
  | .union u => .error (site.unionError u)
  | .array _ _ | .sequence _ _ => .error (.unsupportedElement site written container)

/-- The number of elements, counted in 64 bits from the outermost dimension on; `none` as soon as
an intermediate product does not fit. -/
def elementCount (dims : List Nat) : Option Nat :=
  dims.foldlM (fun count d => if count * d < 2 ^ 64 then some (count * d) else none) 1

/-- The number of elements of an array, which the managed side counts in 32 signed bits. -/
def checkDims (site : Site) (dims : List Nat) : Except GenError Nat :=
  if dims = [] ∨ 0 ∈ dims then .error (.invalidDimensions site dims)
  else
    match elementCount dims with
    | some count => if count < 2 ^ 31 then .ok count else .error (.invalidDimensions site dims)
    | none => .error (.invalidDimensions site dims)

/-- Whether an array has several dimensions. -/
def multiDimensional (dims : List Nat) : Bool :=
  decide (1 < dims.length)

/-- How a fixed array sits in its transfer struct. -/
inductive ArrayTransfer where
  /-- By value, flattened in row-major order. -/
  | inline (length : Nat)
  /-- Behind a handle to a buffer of transfer structs. -/
  | outOfLine (length : Nat)
  deriving DecidableEq, Repr

/-- Arrays are inline, except that structs in several dimensions go out of line. -/
def arrayTransfer (site : Site) (element : Element) (dims : List Nat) :
    Except GenError ArrayTransfer := do
  let length ← checkDims site dims
  match element with
  | .struct _ => return if multiDimensional dims then .outOfLine length else .inline length
  | _ => return .inline length

end InteropGen

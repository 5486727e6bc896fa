import InteropGen.CSharp.Expr
import InteropGen.Target.Element

/-!
# The value side

The types of value-object properties, their default values, and how elements of arrays are reached.
The layout decides how an array of several dimensions is typed, allocated and indexed; nothing else
of the target matters here.
-/

set_option autoImplicit false

namespace InteropGen

open CSharp

/-- The managed type of a primitive. -/
def PrimitiveKind.valueType : PrimitiveKind → Builtin
  | i8 => .sbyte
  | u8 | octet => .byte
  | i16 => .short
  | u16 => .ushort
  | i32 => .int
  | u32 => .uint
  | i64 => .long
  | u64 => .ulong
  | f32 => .float
  | f64 => .double
  | longdouble => .decimal
  | bool => .bool
  | char | wchar => .char

/-- The default value of a primitive. -/
def PrimitiveKind.defaultValue : PrimitiveKind → Expr
  | f32 => .constant .zeroFloat
  | f64 => .constant .zeroDouble
  | longdouble => .constant .zeroDecimal
  | bool => .constant .falseValue
  | char | wchar => .constant .zeroChar
  | _ => .nat 0

/-- The value type of a struct or enum. -/
def valueTypeOf (name : ScopedName) : Ty :=
  .named name.dotted

/-- The value type of an element. -/
def Element.valueType : Element → Ty
  | .primitive kind => .builtin kind.valueType
  | .string _ => .string
  | .enum e => valueTypeOf e.name
  | .struct s => valueTypeOf s.name

/-- `n` arrays of rank one in each other. -/
def nestedArrays (element : Ty) : (n : Nat) → Ty
  | 0 => element
  | n + 1 => .array (nestedArrays element n) 1

namespace Layout

/-- The type of an array: one array of that rank, or that many arrays in each other. -/
def arrayType (layout : Layout) (element : Ty) (rank : Nat) : Ty :=
  match layout with
  | rectangular => .array element rank
  | jagged => nestedArrays element rank

/-- The allocation of an array: the whole block, or only the outermost row of rows. -/
def arrayAllocation (layout : Layout) (element : Ty) (dims : List Nat) : Expr :=
  match layout with
  | rectangular => .newArray element dims 0
  | jagged => .newArray element [dims.headD 0] (dims.length - 1)

end Layout

/-- `base[i][j]`, one index at a time. -/
def jaggedAccess (base : Expr) (indices : List Expr) : Expr :=
  indices.foldl (fun row i => .index row [i]) base

/-- The element of an array at the given indices. -/
def Layout.elementAt (layout : Layout) (base : Expr) (indices : List Expr) : Expr :=
  match layout with
  | rectangular => .index base indices
  | jagged => jaggedAccess base indices

/-- The type of the property that holds a value of the given shape. -/
def Target.valueType (t : Target) (site : Site) : Shape → Except GenError Ty
  | .primitive kind => .ok (.builtin kind.valueType)
  | .string _ => .ok .string
  | .enum e => .ok (valueTypeOf e.name)
  | .struct s => .ok (valueTypeOf s.name)
  | .union u => .error (site.unionError u)
  | .array element dims => do
    let _ ← checkDims site dims
    let elementType ← t.valueType site element
    return t.layout.arrayType elementType dims.length
  | .sequence element _ => do
    let elementType ← t.valueType site element
    return .listInterface elementType

/-- A new list, with its capacity set to the bound if there is one. -/
def listAllocation (element : Ty) (maxBound : Nat) : Expr :=
  .newObject (.list element) (if maxBound = 0 then [] else [.nat maxBound])

/-- The first value of a property. Rows of jagged arrays, and elements that are strings or structs,
still have to be filled in after it. -/
def Target.defaultValue (t : Target) (site : Site) : Shape → Except GenError Expr
  | .primitive kind => .ok kind.defaultValue
  | .string _ => .ok (.constant .emptyString)
  | .enum e => .ok (.defaultOf (valueTypeOf e.name))
  | .struct s => .ok (.newObject (valueTypeOf s.name) [])
  | .union u => .error (site.unionError u)
  | .array element dims => do
    let _ ← checkDims site dims
    let elementType ← t.valueType site element
    return t.layout.arrayAllocation elementType dims
  | .sequence element maxBound => do
    let elementType ← t.valueType site element
    return listAllocation elementType maxBound

/-- Whether the rows of an array are allocated one by one. -/
def Layout.allocatesRows (layout : Layout) (dims : List Nat) : Bool :=
  match layout with
  | rectangular => false
  | jagged => multiDimensional dims

/-- Whether the elements of a shape are null in a fresh array. -/
def Shape.isNullByDefault : Shape → Bool
  | .string _ | .struct _ => true
  | _ => false

/-- Whether an array needs statements after its allocation. -/
def Layout.needsElementInit (layout : Layout) (element : Shape) (dims : List Nat) : Bool :=
  layout.allocatesRows dims || element.isNullByDefault

end InteropGen

import InteropGen.Target.ValueType

/-!
# The transfer side

The types and attributes of transfer-struct fields, and the conversions of scalars and strings
between the two sides. The platform decides how wide characters travel; the layout does not matter
here.
-/

set_option autoImplicit false

namespace InteropGen

open CSharp

/-- How a wide character travels: widened to 32 bits on Linux. -/
def Platform.widensChars : Platform → Bool
  | windows => false
  | linux => true

/-- The encoding of native strings of a kind. -/
def Platform.encoding (platform : Platform) : StringKind → Encoding
  | .narrow => .ansi
  | .wide =>
    match platform with
    | windows => .utf16
    | linux => .utf32

/-- The transfer type of a primitive. -/
def Platform.primitiveType (platform : Platform) : PrimitiveKind → Builtin
  | .longdouble => .double
  | .wchar => if platform.widensChars then .uint else .char
  | kind => kind.valueType

/-- The unmanaged types that attributes name. -/
inductive UnmanagedType where
  | i1 | u2
  deriving DecidableEq, Repr

def UnmanagedType.text : UnmanagedType → String
  | i1 => "I1"
  | u2 => "U2"

/-- The unmanaged type of a primitive whose default marshalling has another width. -/
def Platform.unmanagedType? (platform : Platform) : PrimitiveKind → Option UnmanagedType
  | .bool | .char => some .i1
  | .wchar => if platform.widensChars then none else some .u2
  | _ => none

/-- The marshalling attribute of a transfer-struct field. -/
inductive MarshalAs where
  | scalar (type : UnmanagedType)
  /-- An array by value of the given length. -/
  | byValArray (length : Nat) (elementType : Option UnmanagedType)
  deriving DecidableEq, Repr

def MarshalAs.text : MarshalAs → String
  | scalar type => "[MarshalAs(UnmanagedType." ++ type.text ++ ")]"
  | byValArray length none =>
    "[MarshalAs(UnmanagedType.ByValArray, SizeConst = " ++ toString length ++ ")]"
  | byValArray length (some type) =>
    "[MarshalAs(UnmanagedType.ByValArray, SizeConst = " ++ toString length ++
      ", ArraySubType = UnmanagedType." ++ type.text ++ ")]"

namespace Target

/-- The unqualified name under which a transfer type is declared. -/
def transferShortName (t : Target) (name : ScopedName) : String :=
  name.short ++ t.transferSuffix

/-- The transfer type of a struct or enum. -/
def transferTypeOf (t : Target) (name : ScopedName) : Ty :=
  .named (name.dotted ++ t.transferSuffix)

/-- The transfer type of an element. -/
def elementTransferType (t : Target) : Element → Ty
  | .primitive kind => .builtin (t.platform.primitiveType kind)
  | .string _ => .intPtr
  | .enum e => t.transferTypeOf e.name
  | .struct s => t.transferTypeOf s.name

/-- The type of the transfer-struct field of a field. -/
def transferType (t : Target) (f : FieldView) : Except GenError Ty :=
  match f.shape with
  | .primitive kind => .ok (.builtin (t.platform.primitiveType kind))
  | .string _ | .sequence _ _ => .ok .intPtr
  | .enum e => .ok (t.transferTypeOf e.name)
  | .struct s => .ok (t.transferTypeOf s.name)
  | .union u => .error (f.site.unionError u)
  | .array elementShape dims => do
    let element ← Element.classify f.site .array f.elementText elementShape
    match ← arrayTransfer f.site element dims with
    | .inline _ => return .array (t.elementTransferType element) 1
    | .outOfLine _ => return .intPtr

/-- The marshalling attribute of the transfer-struct field of a field. -/
def transferAttribute (t : Target) (f : FieldView) : Except GenError (Option MarshalAs) :=
  match f.shape with
  | .primitive kind => .ok ((t.platform.unmanagedType? kind).map .scalar)
  | .string _ | .enum _ | .struct _ | .sequence _ _ => .ok none
  | .union u => .error (f.site.unionError u)
  | .array elementShape dims => do
    let element ← Element.classify f.site .array f.elementText elementShape
    match ← arrayTransfer f.site element dims with
    | .inline length =>
      match element with
      | .primitive kind => return some (.byValArray length (t.platform.unmanagedType? kind))
      | _ => return some (.byValArray length none)
    | .outOfLine _ => return none

end Target

namespace Platform

/-- A scalar on its way to the transfer struct. -/
def primitiveToTransfer (platform : Platform) (kind : PrimitiveKind) (value : Expr) : Expr :=
  match kind with
  | .longdouble => .cast (.builtin .double) value
  | .wchar => if platform.widensChars then .cast (.builtin .uint) value else value
  | _ => value

/-- A scalar on its way back. -/
def primitiveFromTransfer (platform : Platform) (kind : PrimitiveKind) (value : Expr) : Expr :=
  match kind with
  | .longdouble => .cast (.builtin .decimal) value
  | .wchar => if platform.widensChars then .cast (.builtin .char) value else value
  | _ => value

/-- Whether a primitive has one type on both sides, so that arrays of it are copied in one go. -/
def isDirect (platform : Platform) (kind : PrimitiveKind) : Bool :=
  kind.valueType = platform.primitiveType kind

/-- A native copy of a string, null counting as empty; the call allocates. -/
def stringToNative (platform : Platform) (kind : StringKind) (value : Expr) : Expr :=
  .call (.stringToHGlobal (platform.encoding kind))
    [.binary .coalesce value (.constant .emptyString)]

/-- The string behind a native handle, empty for a null handle. -/
def stringFromNative (platform : Platform) (kind : StringKind) (handle : Expr) : Expr :=
  .conditional (.binary .unequal handle (.constant .zeroHandle))
    (.call (.ptrToString (platform.encoding kind)) [handle]) (.constant .emptyString)

end Platform

/-- An enum on its way to the transfer struct. -/
def Target.enumToTransfer (t : Target) (e : EnumType) (value : Expr) : Expr :=
  .cast (t.transferTypeOf e.name) value

/-- An enum on its way back. -/
def enumFromTransfer (e : EnumType) (value : Expr) : Expr :=
  .cast (valueTypeOf e.name) value

end InteropGen

import InteropGen.ScopedName
import InteropGen.Number.Binary64

/-!
# The type graph

What an interface definition declares: structs, enums, typedefs, tagged unions and constants, over
primitive types, strings, fixed arrays and sequences. A reference to a named type carries the whole
definition that it refers to.

The records that hold a type are written over a parameter first (`FieldOf`, `StructOf`, …), so that
`TypeNode` can contain them and they are not written twice.
-/

set_option autoImplicit false

namespace InteropGen

/-- The scalar types. -/
inductive PrimitiveKind where
  | i8 | u8 | i16 | u16 | i32 | u32 | i64 | u64
  | f32 | f64 | longdouble
  | octet | bool | char | wchar
  deriving DecidableEq, Repr

namespace PrimitiveKind

/-- Every primitive, in the order of the type's constructors. -/
def all : List PrimitiveKind :=
  [i8, u8, i16, u16, i32, u32, i64, u64, f32, f64, longdouble, octet, bool, char, wchar]

/-- The name in type graphs and messages. -/
def name : PrimitiveKind → String
  | i8 => "i8" | u8 => "u8" | i16 => "i16" | u16 => "u16"
  | i32 => "i32" | u32 => "u32" | i64 => "i64" | u64 => "u64"
  | f32 => "f32" | f64 => "f64" | longdouble => "longdouble"
  | octet => "octet" | bool => "bool" | char => "char" | wchar => "wchar"

/-- The primitive of a given name. -/
def ofName? (name : String) : Option PrimitiveKind :=
  all.find? (·.name = name)

/-- More precise than the double that carries it across the native boundary. -/
def isExtendedPrecision : PrimitiveKind → Bool
  | longdouble => true
  | _ => false

end PrimitiveKind

/-- An enumeration and its members. -/
structure EnumType where
  name : ScopedName
  values : List String
  deriving DecidableEq

/-- A named member of some type. -/
structure FieldOf (α : Type) where
  name : String
  type : α

/-- A struct; one with a category is distinguished, as the topics and services of a system are. -/
structure StructOf (α : Type) where
  name : ScopedName
  fields : List (FieldOf α)
  category : Option String

/-- A tagged union. -/
structure UnionOf (α : Type) where
  name : ScopedName
  branches : List (FieldOf α)

/-- A typedef. -/
structure AliasOf (α : Type) where
  name : ScopedName
  target : α

/-- A type as it is written in a declaration, typedefs included. -/
inductive TypeNode where
  | primitive (kind : PrimitiveKind)
  | narrowString
  | wideString
  | enum (type : EnumType)
  | struct (type : StructOf TypeNode)
  | union (type : UnionOf TypeNode)
  | alias (type : AliasOf TypeNode)
  | fixedArray (element : TypeNode) (dims : List Nat)
  | sequence (element : TypeNode) (maxBound : Nat)

abbrev Field := FieldOf TypeNode
abbrev StructType := StructOf TypeNode
abbrev UnionType := UnionOf TypeNode
abbrev AliasType := AliasOf TypeNode

instance : Inhabited TypeNode := ⟨.narrowString⟩

/-- Whether a struct belongs to a category, the empty one included. -/
def StructOf.isDistinguished {α : Type} (s : StructOf α) : Bool :=
  s.category.isSome

/-- The declared value of a constant. `int` is a signed 64-bit integer, `uint` an unsigned one. -/
inductive ConstValue where
  | int (value : Int)
  | uint (value : Nat)
  | float (value : Binary64)
  | bool (value : Bool)
  | char (value : Char)
  | str (value : String)
  | enumerator (member : String)
  deriving DecidableEq

/-- A constant. -/
structure ConstDecl where
  name : ScopedName
  type : TypeNode
  value : ConstValue

/-- One entry of a type graph. -/
inductive Declaration where
  | struct (type : StructType)
  | enum (type : EnumType)
  | alias (type : AliasType)
  | union (type : UnionType)
  | const (decl : ConstDecl)

/-- The declared name. -/
def Declaration.name : Declaration → ScopedName
  | struct s => s.name
  | enum e => e.name
  | .alias a => a.name
  | union u => u.name
  | const c => c.name

/-- Whether the declaration is a typedef, which produces no code. -/
def Declaration.isAlias : Declaration → Bool
  | .alias _ => true
  | _ => false

/-- Whether the declaration is a struct with a category. -/
def Declaration.isDistinguished : Declaration → Bool
  | struct s => s.isDistinguished
  | _ => false

end InteropGen

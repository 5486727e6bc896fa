import InteropGen.Json.Reader
import InteropGen.TypeGraph.Basic

/-!
# Type graphs in JSON

How declarations are read from JSON values and written to them. A choice is an object with one
member, or the bare tag where it has no content; a record is an object, or an array of its parts in
order. Writing uses objects for records and names every part, a category only where there is one.

* `Declaration.encode` writes what `Declaration.decode?` reads, names in their `A::B` form.
-/

set_option autoImplicit false

namespace InteropGen

namespace ScopedName

def decode? (j : Json) : Option ScopedName :=
  j.string?.map parse

def encode (n : ScopedName) : Json :=
  .string n.qualified

end ScopedName

namespace PrimitiveKind

def decode? (j : Json) : Option PrimitiveKind :=
  match j.variant? with
  | some (tag, none) | some (tag, some .null) => ofName? tag
  | _ => none

def encode (kind : PrimitiveKind) : Json :=
  .string kind.name

end PrimitiveKind

namespace EnumType

def decode? (j : Json) : Option EnumType :=
  match j.record? ["name", "values"] with
  | some [some name, some values] => do
    return { name := ← ScopedName.decode? name, values := ← values.list? Json.string? }
  | _ => none

def encode (e : EnumType) : Json :=
  .object [("name", e.name.encode), ("values", .array (e.values.map .string))]

end EnumType

/-- The category of a struct; null stands for none. -/
def decodeCategory? : Json → Option (Option String)
  | .null => some none
  | .string s => some (some s)
  | _ => none

section Records

variable {α : Type} (type : Json → Option α)

/-- A field whose type is read by `type`. -/
def FieldOf.decode? (j : Json) : Option (FieldOf α) :=
  match j.record? ["name", "type"] with
  | some [some name, some t] => do
    return { name := ← name.string?, type := ← type t }
  | _ => none

/-- A list of fields that may be left out. -/
def FieldOf.decodeList? (j : Option Json) : Option (List (FieldOf α)) :=
  match j with
  | none => some []
  | some j => j.list? (FieldOf.decode? type)

def StructOf.decode? (j : Json) : Option (StructOf α) :=
  match j.record? ["name", "fields", "category"] with
  | some [some name, fields, category] => do
    return {
      name := ← ScopedName.decode? name
      fields := ← FieldOf.decodeList? type fields
      category := ← category.elim (some none) decodeCategory? }
  | _ => none

def UnionOf.decode? (j : Json) : Option (UnionOf α) :=
  match j.record? ["name", "branches"] with
  | some [some name, branches] => do
    return {
      name := ← ScopedName.decode? name
      branches := ← FieldOf.decodeList? type branches }
  | _ => none

def AliasOf.decode? (j : Json) : Option (AliasOf α) :=
  match j.record? ["name", "target"] with
  | some [some name, some target] => do
    return { name := ← ScopedName.decode? name, target := ← type target }
  | _ => none

/-- An array: its element, and its dimensions in 32 bits. -/
def decodeArray? (j : Json) : Option (α × List Nat) :=
  match j.record? ["element", "dims"] with
  | some [some element, some dims] => do
    return (← type element, ← dims.list? (Json.natural? 32))
  | _ => none

/-- A sequence: its element, and its bound in 32 bits, zero if it is left out. -/
def decodeSequence? (j : Json) : Option (α × Nat) :=
  match j.record? ["element", "max_bound"] with
  | some [some element, bound] => do
    return (← type element, ← bound.elim (some 0) (Json.natural? 32))
  | _ => none

end Records

namespace TypeNode

/-- Reads a type that nests at most `fuel` types in each other. -/
def decodeWith? : (fuel : Nat) → Json → Option TypeNode
  | 0, _ => none
  | fuel + 1, j =>
    match j.variant? with
    | some ("narrow_string", none) | some ("narrow_string", some .null) => some .narrowString
    | some ("wide_string", none) | some ("wide_string", some .null) => some .wideString
    | some ("primitive", some j) => (PrimitiveKind.decode? j).map .primitive
    | some ("enum", some j) => (EnumType.decode? j).map .enum
    | some ("struct", some j) => (StructOf.decode? (decodeWith? fuel) j).map .struct
    | some ("union", some j) => (UnionOf.decode? (decodeWith? fuel) j).map .union
    | some ("alias", some j) => (AliasOf.decode? (decodeWith? fuel) j).map .alias
    | some ("fixed_array", some j) =>
      (decodeArray? (decodeWith? fuel) j).map fun (element, dims) => .fixedArray element dims
    | some ("sequence", some j) =>
      (decodeSequence? (decodeWith? fuel) j).map fun (element, bound) => .sequence element bound
    | _ => none

/-- Reads a type; types in each other are values in each other. -/
def decode? (j : Json) : Option TypeNode :=
  decodeWith? (j.depth + 1) j

mutual

def encode : TypeNode → Json
  | .primitive kind => .tagged "primitive" kind.encode
  | .narrowString => .string "narrow_string"
  | .wideString => .string "wide_string"
  | .enum e => .tagged "enum" e.encode
  | .struct s => .tagged "struct" (encodeStruct s)
  | .union u => .tagged "union" (encodeUnion u)
  | .alias a => .tagged "alias" (encodeAlias a)
  | .fixedArray element dims =>
    .tagged "fixed_array"
      (.object [("element", element.encode), ("dims", .array (dims.map Json.ofNat))])
  | .sequence element bound =>
    .tagged "sequence" (.object [("element", element.encode), ("max_bound", .ofNat bound)])
  termination_by structural node => node

def encodeStruct : StructOf TypeNode → Json
  | ⟨name, fields, category⟩ =>
    .object ([("name", name.encode), ("fields", .array (encodeFields fields))] ++
      category.elim [] fun c => [("category", .string c)])
  termination_by structural s => s

def encodeUnion : UnionOf TypeNode → Json
  | ⟨name, branches⟩ =>
    .object [("name", name.encode), ("branches", .array (encodeFields branches))]
  termination_by structural u => u

def encodeAlias : AliasOf TypeNode → Json
  | ⟨name, target⟩ => .object [("name", name.encode), ("target", target.encode)]
  termination_by structural a => a

def encodeFields : List (FieldOf TypeNode) → List Json
  | [] => []
  | f :: rest => encodeField f :: encodeFields rest
  termination_by structural fields => fields

def encodeField : FieldOf TypeNode → Json
  | ⟨name, type⟩ => .object [("name", .string name), ("type", type.encode)]
  termination_by structural f => f

end

end TypeNode

/-- Reads a field. -/
def Field.decode? (j : Json) : Option Field :=
  FieldOf.decode? TypeNode.decode? j

namespace ConstValue

/-- The character that a string of one character is. -/
def singleChar? (s : String) : Option Char :=
  match s.toList with
  | [c] => some c
  | _ => none

def decode? (j : Json) : Option ConstValue :=
  match j.variant? with
  | some ("int", some j) => (j.integer? (-2 ^ 63) (2 ^ 63 - 1)).map .int
  | some ("uint", some j) => (j.natural? 64).map .uint
  | some ("float", some j) => j.number?.map .float
  | some ("bool", some j) => j.bool?.map .bool
  | some ("char", some j) => (j.string?.bind singleChar?).map .char
  | some ("str", some j) => j.string?.map .str
  | some ("enumerator", some j) => j.string?.map .enumerator
  | _ => none

def encode : ConstValue → Json
  | int v => .tagged "int" (.ofInt v)
  | uint v => .tagged "uint" (.ofNat v)
  | float v => .tagged "float" (.number (.float v))
  | bool v => .tagged "bool" (.bool v)
  | char v => .tagged "char" (.string (String.ofList [v]))
  | str v => .tagged "str" (.string v)
  | enumerator v => .tagged "enumerator" (.string v)

end ConstValue

namespace ConstDecl

def decode? (j : Json) : Option ConstDecl :=
  match j.record? ["name", "type", "value"] with
  | some [some name, some type, some value] => do
    return {
      name := ← ScopedName.decode? name
      type := ← TypeNode.decode? type
      value := ← ConstValue.decode? value }
  | _ => none

def encode (c : ConstDecl) : Json :=
  .object [("name", c.name.encode), ("type", c.type.encode), ("value", c.value.encode)]

end ConstDecl

namespace Declaration

def decode? (j : Json) : Option Declaration :=
  match j.variant? with
  | some ("struct", some j) => (StructOf.decode? TypeNode.decode? j).map .struct
  | some ("enum", some j) => (EnumType.decode? j).map .enum
  | some ("alias", some j) => (AliasOf.decode? TypeNode.decode? j).map .alias
  | some ("union", some j) => (UnionOf.decode? TypeNode.decode? j).map .union
  | some ("const", some j) => (ConstDecl.decode? j).map .const
  | _ => none

def encode : Declaration → Json
  | struct s => .tagged "struct" (TypeNode.encodeStruct s)
  | enum e => .tagged "enum" e.encode
  | .alias a => .tagged "alias" (TypeNode.encodeAlias a)
  | union u => .tagged "union" (TypeNode.encodeUnion u)
  | const c => .tagged "const" c.encode

/-- Reads a list of declarations. -/
def decodeList? (j : Json) : Option (List Declaration) :=
  j.list? decode?

/-- Writes a list of declarations. -/
def encodeList (declarations : List Declaration) : Json :=
  .array (declarations.map encode)

/-- Reads a list of declarations from JSON text, with its decimals rounded as given. -/
def parseList? (rounding : Rounding) (text : String) : Option (List Declaration) :=
  (Json.parse? rounding text).bind decodeList?

end Declaration

end InteropGen

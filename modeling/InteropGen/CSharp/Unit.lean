import InteropGen.CSharp.Stmt
import InteropGen.Target.TransferType

/-!
# Declarations of generated code

The declarations that the generator writes: a value class, a transfer struct, the two enums of an
enumeration, and the holder of a constant. A unit is one of them inside its namespace.

* `SourceUnit.lines` gives a unit as lines; members are separated by empty lines, and the methods
  of a value class stand in regions.
-/

set_option autoImplicit false

namespace InteropGen.CSharp

/-- The class of a value object. Method bodies are statements; the codec is absent in classes that
are not sent as messages. -/
structure ValueClass where
  name : String
  /-- The name of the transfer struct it converts to. -/
  transferName : String
  properties : List (Ty × String)
  constructor : List Stmt
  toNative : List Stmt
  fromNative : List Stmt
  releaseNative : List Stmt
  /-- The bodies of `Encode` and `Decode`. -/
  codec : Option (List Stmt × List Stmt)

/-- A field of a transfer struct. -/
structure TransferField where
  marshalAs : Option MarshalAs
  type : Ty
  name : String

/-- The struct that crosses the native boundary. -/
structure TransferStruct where
  name : String
  fields : List TransferField

/-- The declarations. Names and members are given as they are declared; those that generated code
declares without a suffix are escaped when they are printed. -/
inductive TypeDecl where
  | valueClass (c : ValueClass)
  | transferStruct (s : TransferStruct)
  | valueEnum (name : String) (members : List String)
  | transferEnum (name : String) (members : List String)
  | constant (type : Ty) (name literal : String)

/-- A declaration inside its namespace. -/
structure SourceUnit where
  enclosing : Option String
  decl : TypeDecl

/-- A header and its block. -/
def headed (level : Nat) (header : String) (inner : List Line) : List Line :=
  ⟨level, header⟩ :: braced level inner

/-- A region: its members with an empty line before and after each. -/
def region (level : Nat) (title : String) (members : List (List Line)) : List Line :=
  ⟨level, "#region " ++ title⟩ :: Line.blank ::
    members.flatMap (· ++ [Line.blank]) ++ [⟨level, "#endregion"⟩]

/-- A method with the given header. -/
def methodLines (stem : String) (level : Nat) (header : String) (body : List Stmt) : List Line :=
  headed level header (bodyLines stem (level + 1) body)

namespace ValueClass

/-- The line of a property. -/
def propertyLine (level : Nat) (property : Ty × String) : Line :=
  ⟨level, "public " ++ property.1.text ++ " " ++ identifier property.2 ++
    " \x7b get; set; \x7d"⟩

/-- The lines of the class at `level`. -/
def lines (stem : String) (level : Nat) (c : ValueClass) : List Line :=
  let inner := level + 1
  let method := methodLines stem inner
  headed level ("public partial class " ++ identifier c.name) <|
    c.properties.map (propertyLine inner) ++
    (if c.properties.isEmpty then [] else [Line.blank]) ++
    method ("public " ++ identifier c.name ++ "()") c.constructor ++ [Line.blank] ++
    region inner "Marshaling"
      [method ("internal void ToNative(ref " ++ c.transferName ++
          " wrapper, List<IntPtr> toRelease)") c.toNative,
        method ("internal void FromNative(" ++ c.transferName ++ " wrapper)") c.fromNative,
        method ("internal static void ReleaseNative(ref " ++ c.transferName ++
          " wrapper, List<IntPtr> toRelease)") c.releaseNative] ++
    match c.codec with
    | none => []
    | some (encode, decode) =>
      Line.blank ::
        region inner "Serialization"
          [method "public void Encode(CdrWriter writer)" encode,
            method "public void Decode(CdrReader reader)" decode]

end ValueClass

/-- The lines of a transfer-struct field: its attribute, if any, and its declaration. -/
def TransferField.lines (level : Nat) (f : TransferField) : List Line :=
  (f.marshalAs.elim [] fun a => [⟨level, a.text⟩]) ++
    [⟨level, "public " ++ f.type.text ++ " " ++ identifier f.name ++ ";"⟩]

/-- The lines of a transfer struct, laid out in the order of its fields. -/
def TransferStruct.lines (level : Nat) (s : TransferStruct) : List Line :=
  ⟨level, "[StructLayout(LayoutKind.Sequential)]"⟩ ::
    headed level ("internal struct " ++ s.name) (s.fields.flatMap (·.lines (level + 1)))

/-- The members of an enum, separated by commas. -/
def memberLines (level : Nat) : List String → List Line
  | [] => []
  | [last] => [⟨level, identifier last⟩]
  | member :: rest => ⟨level, identifier member ++ ","⟩ :: memberLines level rest

/-- The lines of a declaration. -/
def TypeDecl.lines (stem : String) (level : Nat) : TypeDecl → List Line
  | valueClass c => c.lines stem level
  | transferStruct s => s.lines level
  | valueEnum name members =>
    headed level ("public enum " ++ identifier name) (memberLines (level + 1) members)
  | transferEnum name members =>
    headed level ("internal enum " ++ name ++ " : int") (memberLines (level + 1) members)
  | constant type name literal =>
    headed level "public static partial class Constants"
      [⟨level + 1, "public const " ++ type.text ++ " " ++ identifier name ++ " = " ++ literal ++ ";"⟩]

/-- The lines of a unit. -/
def SourceUnit.lines (stem : String) (u : SourceUnit) : List Line :=
  match u.enclosing with
  | none => u.decl.lines stem 0
  | some path => headed 0 ("namespace " ++ path) (u.decl.lines stem 1)

/-- The text of a unit. -/
def SourceUnit.text (style : Style) (u : SourceUnit) : String :=
  renderLines style.indentWidth (u.lines style.counterStem)

end InteropGen.CSharp

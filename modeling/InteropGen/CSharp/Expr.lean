import InteropGen.CSharp.Literal

/-!
# Types and expressions of generated code

The part of C# that marshalling code is written in, as data. Generated code is built from these
trees and printed by `Ty.text` and `Expr.text`; nothing else in the library spells an expression,
so a statement about generated code can be made about the tree.

Operators are printed without parentheses of their own: where an operand needs them, the tree has
a `paren` node. A loop counter is known by the depth of its loop; its name is that number after a
stem that the printer is given.
-/

set_option autoImplicit false

namespace InteropGen.CSharp

/-- The predefined value types. -/
inductive Builtin where
  | sbyte | byte | short | ushort | int | uint | long | ulong
  | float | double | decimal | bool | char
  deriving DecidableEq, Repr

def Builtin.text : Builtin → String
  | sbyte => "sbyte" | byte => "byte" | short => "short" | ushort => "ushort"
  | int => "int" | uint => "uint" | long => "long" | ulong => "ulong"
  | float => "float" | double => "double" | decimal => "decimal"
  | bool => "bool" | char => "char"

/-- The types that generated code mentions. -/
inductive Ty where
  | builtin (type : Builtin)
  | string
  | intPtr
  /-- A type named by its path. -/
  | named (path : String)
  /-- `T[]`, `T[,]`, …; an array of arrays is an array of rank one at every level. -/
  | array (element : Ty) (rank : Nat)
  /-- The interface `IList<T>` that properties of sequence type have. -/
  | listInterface (element : Ty)
  /-- The class `List<T>` that is created for them. -/
  | list (element : Ty)
  deriving DecidableEq, Repr

/-- The printed type. -/
def Ty.text : Ty → String
  | builtin type => type.text
  | string => "string"
  | intPtr => "IntPtr"
  | named path => path
  | array element rank => element.text ++ "[" ++ String.ofList (List.replicate (rank - 1) ',') ++ "]"
  | listInterface element => "IList<" ++ element.text ++ ">"
  | list element => "List<" ++ element.text ++ ">"

/-- The parameters and local variables of generated methods. -/
inductive Local where
  | wrapper | toRelease | writer | reader
  | handle | count | size | text | element
  /-- The counter of the loop at the given depth. -/
  | counter (depth : Nat)
  deriving DecidableEq, Repr

/-- The name of a local variable; counters are numbered after `stem`. -/
def Local.name (stem : String) : Local → String
  | wrapper => "wrapper" | toRelease => "toRelease" | writer => "writer" | reader => "reader"
  | handle => "handle" | count => "count" | size => "size" | text => "text"
  | element => "element"
  | counter depth => stem ++ toString depth

/-- The two objects whose fields a conversion moves. -/
inductive Owner where
  /-- The value object, `this`. -/
  | value
  /-- The transfer struct, `wrapper`. -/
  | transfer
  deriving DecidableEq, Repr

def Owner.text : Owner → String
  | value => "this"
  | transfer => "wrapper"

/-- The integers that native memory is read and written by. -/
inductive Word where
  | byte | int16 | int32 | int64 | intPtr
  deriving DecidableEq, Repr

def Word.text : Word → String
  | byte => "Byte" | int16 => "Int16" | int32 => "Int32" | int64 => "Int64" | intPtr => "IntPtr"

/-- The encodings of native strings. -/
inductive Encoding where
  /-- The code page of the platform. -/
  | ansi
  /-- UTF-16, the wide strings of Windows. -/
  | utf16
  /-- UTF-32, the wide strings of Linux. -/
  | utf32
  deriving DecidableEq, Repr

/-- The class and stem of the runtime functions of an encoding. -/
def Encoding.owner : Encoding → String
  | ansi | utf16 => "Marshal"
  | utf32 => "MarshalHelper"

def Encoding.text : Encoding → String
  | ansi => "Ansi" | utf16 => "Uni" | utf32 => "Utf32"

/-- The kinds of value that the wire codec knows. -/
inductive WireTag where
  | int8 | uint8 | int16 | uint16 | int32 | uint32 | int64 | uint64
  | float | double | longDouble | octet | bool | char | wchar | string | wstring
  deriving DecidableEq, Repr

def WireTag.text : WireTag → String
  | int8 => "Int8" | uint8 => "UInt8" | int16 => "Int16" | uint16 => "UInt16"
  | int32 => "Int32" | uint32 => "UInt32" | int64 => "Int64" | uint64 => "UInt64"
  | float => "Float" | double => "Double" | longDouble => "LongDouble" | octet => "Octet"
  | bool => "Bool" | char => "Char" | wchar => "WChar" | string => "String"
  | wstring => "WString"

/-- What one call of the wire codec moves: one value, a sequence, or an array of rank one. -/
inductive WireForm where
  | scalar | sequence | array
  deriving DecidableEq, Repr

def WireForm.text : WireForm → String
  | scalar => "" | sequence => "Seq" | array => "Array"

/-- The static functions that generated code calls. -/
inductive Function where
  | allocHGlobal
  | freeHGlobal
  | stringToHGlobal (encoding : Encoding)
  | ptrToString (encoding : Encoding)
  | write (word : Word)
  | read (word : Word)
  | structureToPtr
  | ptrToStructure (type : Ty)
  | sizeOf (type : Ty)
  | intPtrAdd
  | mathMin
  | arrayCopy
  | arrayClear
  | singleToInt32Bits
  | int32BitsToSingle
  | doubleToInt64Bits
  | int64BitsToDouble
  /-- The `ReleaseNative` of the named value type. -/
  | releaseNative (type : Ty)
  deriving DecidableEq, Repr

def Function.text : Function → String
  | allocHGlobal => "Marshal.AllocHGlobal"
  | freeHGlobal => "Marshal.FreeHGlobal"
  | stringToHGlobal encoding => encoding.owner ++ ".StringToHGlobal" ++ encoding.text
  | ptrToString encoding => encoding.owner ++ ".PtrToString" ++ encoding.text
  | write word => "Marshal.Write" ++ word.text
  | read word => "Marshal.Read" ++ word.text
  | structureToPtr => "Marshal.StructureToPtr"
  | ptrToStructure type => "Marshal.PtrToStructure<" ++ type.text ++ ">"
  | sizeOf type => "Marshal.SizeOf<" ++ type.text ++ ">"
  | intPtrAdd => "IntPtr.Add"
  | mathMin => "Math.Min"
  | arrayCopy => "Array.Copy"
  | arrayClear => "Array.Clear"
  | singleToInt32Bits => "BitConverter.SingleToInt32Bits"
  | int32BitsToSingle => "BitConverter.Int32BitsToSingle"
  | doubleToInt64Bits => "BitConverter.DoubleToInt64Bits"
  | int64BitsToDouble => "BitConverter.Int64BitsToDouble"
  | releaseNative type => type.text ++ ".ReleaseNative"

/-- Whether a function hands out native memory that must be freed. -/
def Function.allocates : Function → Bool
  | allocHGlobal | stringToHGlobal _ => true
  | _ => false

/-- The methods that generated code calls on an object. -/
inductive Method where
  | add
  | clear
  | toNative
  | fromNative
  | write (tag : WireTag) (form : WireForm)
  | read (tag : WireTag) (form : WireForm)
  deriving DecidableEq, Repr

def Method.text : Method → String
  | add => "Add"
  | clear => "Clear"
  | toNative => "ToNative"
  | fromNative => "FromNative"
  | write tag form => "Write" ++ tag.text ++ form.text
  | read tag form => "Read" ++ tag.text ++ form.text

/-- Expressions without operands. -/
inductive Constant where
  | null
  /-- `IntPtr.Zero` -/
  | zeroHandle
  /-- `string.Empty` -/
  | emptyString
  | falseValue
  /-- `0.0f` -/
  | zeroFloat
  /-- `0.0` -/
  | zeroDouble
  /-- `0m` -/
  | zeroDecimal
  /-- The character of code zero. -/
  | zeroChar
  /-- `sizeof(int)` -/
  | sizeOfInt
  /-- `IntPtr.Size` -/
  | sizeOfHandle
  deriving DecidableEq, Repr

def Constant.text : Constant → String
  | null => "null"
  | zeroHandle => "IntPtr.Zero"
  | emptyString => "string.Empty"
  | falseValue => "false"
  | zeroFloat => "0.0f"
  | zeroDouble => "0.0"
  | zeroDecimal => "0m"
  | zeroChar => "'\\0'"
  | sizeOfInt => "sizeof(int)"
  | sizeOfHandle => "IntPtr.Size"

inductive BinaryOp where
  | times | equal | unequal | coalesce
  deriving DecidableEq, Repr

def BinaryOp.text : BinaryOp → String
  | times => "*" | equal => "==" | unequal => "!=" | coalesce => "??"

/-- Expressions. -/
inductive Expr where
  | var (name : Local)
  /-- A field of the value object or of the transfer struct, by its declared name. -/
  | field (owner : Owner) (name : String)
  /-- An expression that is given by its text. -/
  | spelled (text : String)
  /-- A decimal numeral. -/
  | nat (n : Nat)
  | constant (c : Constant)
  | paren (inner : Expr)
  /-- `base[i, j]` -/
  | index (base : Expr) (indices : List Expr)
  /-- The `Count` of a list. -/
  | listCount (list : Expr)
  /-- The `Length` of an array. -/
  | arrayLength (array : Expr)
  | cast (type : Ty) (operand : Expr)
  /-- A cast that keeps the low bits, `unchecked((T)x)`. -/
  | uncheckedCast (type : Ty) (operand : Expr)
  | binary (op : BinaryOp) (left right : Expr)
  /-- Terms added from left to right. -/
  | sum (terms : List Expr)
  | conditional (condition whenTrue whenFalse : Expr)
  /-- `ref x`, an argument passed by reference. -/
  | byRef (place : Expr)
  | call (function : Function) (arguments : List Expr)
  | invoke (receiver : Expr) (method : Method) (arguments : List Expr)
  /-- `default(T)` -/
  | defaultOf (type : Ty)
  | newObject (type : Ty) (arguments : List Expr)
  /-- `new T[2, 3]`, followed by `inner` pairs of brackets for rows that are not allocated yet. -/
  | newArray (element : Ty) (dims : List Nat) (inner : Nat)

/-- `n` pairs of brackets. -/
def brackets (n : Nat) : String :=
  String.join (List.replicate n "[]")

mutual

/-- The printed expression, with counters numbered after `stem`. -/
def Expr.text (stem : String) : Expr → String
  | .var name => name.name stem
  | .field owner name => owner.text ++ "." ++ identifier name
  | .spelled text => text
  | .nat n => toString n
  | .constant c => c.text
  | .paren inner => "(" ++ inner.text stem ++ ")"
  | .index base indices => base.text stem ++ "[" ++ ", ".intercalate (texts stem indices) ++ "]"
  | .listCount list => list.text stem ++ ".Count"
  | .arrayLength array => array.text stem ++ ".Length"
  | .cast type operand => "(" ++ type.text ++ ")" ++ operand.text stem
  | .uncheckedCast type operand =>
    "unchecked((" ++ type.text ++ ")" ++ operand.text stem ++ ")"
  | .binary op left right => left.text stem ++ " " ++ op.text ++ " " ++ right.text stem
  | .sum terms => " + ".intercalate (texts stem terms)
  | .conditional condition whenTrue whenFalse =>
    condition.text stem ++ " ? " ++ whenTrue.text stem ++ " : " ++ whenFalse.text stem
  | .byRef place => "ref " ++ place.text stem
  | .call function arguments =>
    function.text ++ "(" ++ ", ".intercalate (texts stem arguments) ++ ")"
  | .invoke receiver method arguments =>
    receiver.text stem ++ "." ++ method.text ++ "(" ++
      ", ".intercalate (texts stem arguments) ++ ")"
  | .defaultOf type => "default(" ++ type.text ++ ")"
  | .newObject type arguments =>
    "new " ++ type.text ++ "(" ++ ", ".intercalate (texts stem arguments) ++ ")"
  | .newArray element dims inner =>
    "new " ++ element.text ++ "[" ++ ", ".intercalate (dims.map toString) ++ "]" ++ brackets inner

/-- The printed expressions of a list. -/
def texts (stem : String) : List Expr → List String
  | [] => []
  | e :: es => e.text stem :: texts stem es

end

end InteropGen.CSharp

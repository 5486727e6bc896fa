import InteropGen.Target.ValueType
import InteropGen.CSharp.Literal

/-!
# Constants

Which values a constant of a type may have, and how they are spelled. An integer type takes the
integers of its range, a floating-point type finite numbers of its magnitude, `bool` truth values,
a character type characters of its width, a string type strings, and an enum its own members.
-/

set_option autoImplicit false

namespace InteropGen

open CSharp

namespace ConstValue

/-- A value as messages show it. -/
def shown : ConstValue → String
  | int v => "Int(" ++ toString v ++ ")"
  | uint v => "UInt(" ++ toString v ++ ")"
  | float v => "Float(" ++ v.text ++ ")"
  | bool v => "Bool(" ++ toString v ++ ")"
  | char v => "Char(" ++ Text.shownChar v ++ ")"
  | str v => "Str(" ++ Text.shown v ++ ")"
  | enumerator v => "Enumerator(" ++ Text.shown v ++ ")"

/-- The integer that a value is, signed or not. -/
def integer? : ConstValue → Option Int
  | int v => some v
  | uint v => some v
  | _ => none

/-- The number that a value is; integers are rounded to double precision. -/
def number? : ConstValue → Option Binary64
  | float v => some v
  | v => v.integer?.map Binary64.ofInt

end ConstValue

/-- The integers of a primitive type: least and greatest. -/
def PrimitiveKind.range? : PrimitiveKind → Option (Int × Int)
  | i8 => some (-2 ^ 7, 2 ^ 7 - 1)
  | u8 | octet => some (0, 2 ^ 8 - 1)
  | i16 => some (-2 ^ 15, 2 ^ 15 - 1)
  | u16 => some (0, 2 ^ 16 - 1)
  | i32 => some (-2 ^ 31, 2 ^ 31 - 1)
  | u32 => some (0, 2 ^ 32 - 1)
  | i64 => some (-2 ^ 63, 2 ^ 63 - 1)
  | u64 => some (0, 2 ^ 64 - 1)
  | _ => none

/-- The literal of an integer in a range. -/
def integerLiteral? (range : Int × Int) (v : Int) : Option String :=
  if range.1 ≤ v ∧ v ≤ range.2 then some (toString v) else none

/-- The literal of a finite number that fits. -/
def numberLiteral? (fits : Binary64 → Bool) (suffix : String) (v : Binary64) : Option String :=
  if v.isFinite && fits v then some (floatLiteral v suffix) else none

/-- The literal of a character up to a code point. -/
def charLiteral? (limit : Nat) : ConstValue → Option String
  | .char c => if c.toNat ≤ limit then some (charLiteral c) else none
  | _ => none

/-- The literal of a constant of primitive type. -/
def PrimitiveKind.literal? (kind : PrimitiveKind) (value : ConstValue) : Option String :=
  match kind with
  | f32 => value.number?.bind (numberLiteral? (·.magnitudeLE Binary64.largestBinary32) "f")
  | f64 => value.number?.bind (numberLiteral? (fun _ => true) "")
  | longdouble => value.number?.bind (numberLiteral? (·.magnitudeLT (2 ^ 96)) "m")
  | bool =>
    match value with
    | .bool b => some (toString b)
    | _ => none
  | char => charLiteral? 0xFF value
  | wchar => charLiteral? 0xFFFF value
  | kind => do
    let range ← kind.range?
    integerLiteral? range (← value.integer?)

/-- The type and literal of a constant, if the value is one of the type. -/
def constantLiteral? (shape : Shape) (value : ConstValue) : Option (Ty × String) :=
  match shape, value with
  | .primitive kind, value => (kind.literal? value).map fun l => (.builtin kind.valueType, l)
  | .string _, .str text => some (.string, stringLiteral text)
  | .enum e, .enumerator member =>
    if member ∈ e.values then
      some (valueTypeOf e.name, (valueTypeOf e.name).text ++ "." ++ identifier member)
    else none
  | _, _ => none

/-- The declaration of a constant. -/
def ConstDecl.literal (c : ConstDecl) : Except GenError (Ty × String) :=
  match constantLiteral? c.type.shape c.value with
  | some result => .ok result
  | none => .error (.invalidConstant c.name.qualified c.type.describe c.value.shown)

end InteropGen

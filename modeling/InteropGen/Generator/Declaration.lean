import InteropGen.Catalog
import InteropGen.Constant
import InteropGen.Conversion.FromNative
import InteropGen.Conversion.Initial
import InteropGen.Conversion.Release
import InteropGen.Conversion.ToNative
import InteropGen.CSharp.Unit
import InteropGen.WireCodec

/-!
# Code of one declaration for one target

What a declaration becomes: a struct a value class and a transfer struct, an enum one enum on
either side, a constant a member of the value side, a typedef nothing. A union is rejected, and so
is a struct that reaches one through its fields.

* A struct is rejected by the first rule that breaks: unions first, then property types, the
  constructor, the three conversions, the codec, and the transfer struct, each over all fields in
  order.
-/

set_option autoImplicit false

namespace InteropGen

open CSharp

/-- The code of one declaration on one target, absent where it produces none. -/
structure DeclarationCode where
  units : Sides (Option SourceUnit)
  notes : List Diagnostic

/-- The statements of a method that handles field after field. Sibling loops reuse counters, so
each field starts at depth zero. -/
def methodBody (fields : List FieldView) (draft : (depth : Nat) → FieldView → Draft Unit) :
    Except GenError (List Stmt × List Diagnostic) :=
  (Draft.each fields (draft 0)).complete

/-- The start of every release: the memory of the release list is freed and the list emptied. -/
def freeReleased : List Stmt :=
  [.forEach .intPtr .handle (.var .toRelease) [.run (.call .freeHGlobal [.var .handle])],
    .run (.invoke (.var .toRelease) .clear [])]

namespace Target

/-- The type and name of a property. -/
def property (t : Target) (f : FieldView) : Except GenError (Ty × String) := do
  return (← t.valueType f.site f.shape, f.site.field)

/-- The two bodies of the wire codec and their diagnostics. -/
def codecBodies (t : Target) (fields : List FieldView) :
    Except GenError ((List Stmt × List Stmt) × List Diagnostic) := do
  let (encode, encodeNotes) ← methodBody fields t.encode
  let (decode, decodeNotes) ← methodBody fields t.decode
  return ((encode, decode), encodeNotes ++ decodeNotes)

/-- The value class of a struct; `codec` tells whether it has a wire codec. -/
def valueClass (t : Target) (codec : Bool) (s : StructType) (fields : List FieldView) :
    Except GenError (ValueClass × List Diagnostic) := do
  let properties ← fields.mapM t.property
  let (constructor, initialNotes) ← methodBody fields t.initial
  let (toNative, toNotes) ← methodBody fields t.toNative
  let (fromNative, fromNotes) ← methodBody fields t.fromNative
  let (release, releaseNotes) ← methodBody fields releaseNative
  let (codec, codecNotes) ←
    if codec then do
      let (bodies, notes) ← t.codecBodies fields
      pure (some bodies, notes)
    else pure (none, [])
  return (
    { name := s.name.short
      transferName := t.transferShortName s.name
      properties
      constructor
      toNative
      fromNative
      releaseNative := freeReleased ++ release
      codec },
    initialNotes ++ toNotes ++ fromNotes ++ releaseNotes ++ codecNotes)

/-- The field of a transfer struct. -/
def transferField (t : Target) (f : FieldView) : Except GenError TransferField := do
  let marshalAs ← t.transferAttribute f
  let type ← t.transferType f
  return { marshalAs, type, name := f.site.field }

/-- The transfer struct of a struct. -/
def transferStruct (t : Target) (s : StructType) (fields : List FieldView) :
    Except GenError TransferStruct := do
  return { name := t.transferShortName s.name, fields := ← fields.mapM t.transferField }

/-- The code of a struct. -/
def structCode (t : Target) (wireCodec : Bool) (s : StructType) :
    Except GenError DeclarationCode := do
  match s.fields.findSome? (·.type.findUnion) with
  | some u => throw (.unsupportedUnion s.name.qualified u.name.qualified)
  | none =>
    let fields := s.fields.map (FieldView.of s.name.qualified)
    let (values, notes) ← t.valueClass (wireCodec && s.isDistinguished) s fields
    let transfers ← t.transferStruct s fields
    return {
      units := {
        values := some ⟨s.name.enclosing, .valueClass values⟩
        transfers := some ⟨s.name.enclosing, .transferStruct transfers⟩ }
      notes }

/-- The code of an enum. -/
def enumCode (t : Target) (e : EnumType) : DeclarationCode where
  units := {
    values := some ⟨e.name.enclosing, .valueEnum e.name.short e.values⟩
    transfers := some ⟨e.name.enclosing, .transferEnum (t.transferShortName e.name) e.values⟩ }
  notes := []

/-- The code of a constant. -/
def constCode (c : ConstDecl) : Except GenError DeclarationCode := do
  let (type, literal) ← c.literal
  return {
    units := {
      values := some ⟨c.name.enclosing, .constant type c.name.short literal⟩
      transfers := none }
    notes := [] }

/-- The code of a declaration. -/
def declarationCode (t : Target) (wireCodec : Bool) : Declaration → Except GenError DeclarationCode
  | .struct s => t.structCode wireCodec s
  | .enum e => .ok (t.enumCode e)
  | .const c => constCode c
  | .alias _ => .ok ⟨⟨none, none⟩, []⟩
  | .union u => .error (.unsupportedUnion u.name.qualified u.name.qualified)

end Target

end InteropGen

import InteropGen.Conversion.Basic

/-!
# The wire codec

The statements that write one field of a message to the wire and read it back. Only flat messages
have an encoding: primitives, strings, enums, and arrays and sequences of primitives and strings.
A sequence or an array of one dimension is a single call; an array of several dimensions is written
element by element in row-major order.
-/

set_option autoImplicit false

namespace InteropGen

open CSharp

/-- The error that an aggregate occurs inside a message. -/
def nestedError (f : FieldView) (written : String) : GenError :=
  .nestedAggregate f.site written

/-- The element of an encodable collection with its wire tag. -/
def wireElement (f : FieldView) (container : Container) (shape : Shape) :
    Except GenError (Element × WireTag) := do
  let element ← Element.classify f.site container f.elementText shape
  match element with
  | .primitive kind => return (element, kind.wireTag)
  | .string kind => return (element, kind.wireTag)
  | .enum _ | .struct _ => throw (nestedError f f.elementText)

/-- A call of the writer. -/
def writeCall (tag : WireTag) (form : WireForm) (arguments : List Expr) : Stmt :=
  .run (.invoke (.var .writer) (.write tag form) arguments)

/-- A call of the reader, assigned to a place. -/
def readCall (place : Expr) (tag : WireTag) (form : WireForm) (arguments : List Expr) : Stmt :=
  .assign place (.invoke (.var .reader) (.read tag form) arguments)

/-- The bound as a call argument, absent without a bound. -/
def boundArgument (maxBound : Nat) : List Expr :=
  if maxBound = 0 then [] else [.nat maxBound]

namespace Target

/-- The statements that write an array to the wire. -/
def encodeArray (t : Target) (depth : Nat) (f : FieldView) (tag : WireTag) (dims : List Nat)
    (length : Nat) : List Stmt :=
  if multiDimensional dims then
    loopNest depth dims none fun indices =>
      [writeCall tag .scalar [t.layout.elementAt f.value indices]]
  else [writeCall tag .array [f.value, .nat length]]

/-- The statements that read an array from the wire. -/
def decodeArray (t : Target) (depth : Nat) (f : FieldView) (element : Element) (tag : WireTag)
    (dims : List Nat) (length : Nat) : List Stmt :=
  if multiDimensional dims then
    .assign f.value (t.layout.arrayAllocation element.valueType dims) ::
      loopNest depth dims (t.layout.rows? f.value element.valueType dims) fun indices =>
        [readCall (t.layout.elementAt f.value indices) tag .scalar []]
  else [readCall f.value tag .array [.nat length]]

/-- The encoding of one field; counters are numbered from `depth`. -/
def encode (t : Target) (depth : Nat) (f : FieldView) : Draft Unit :=
  match f.shape with
  | .primitive kind => Draft.write [writeCall kind.wireTag .scalar [f.value]]
  | .string kind => Draft.write [writeCall kind.wireTag .scalar [f.value]]
  | .enum _ => Draft.write [writeCall .int32 .scalar [.cast (.builtin .int) f.value]]
  | .struct _ => Draft.fail (nestedError f f.typeText)
  | .union u => Draft.fail (f.site.unionError u)
  | .sequence elementShape maxBound => do
    let (_, tag) ← Draft.lift (wireElement f .sequence elementShape)
    Draft.write [writeCall tag .sequence (f.value :: boundArgument maxBound)]
  | .array elementShape dims => do
    let (_, tag) ← Draft.lift (wireElement f .array elementShape)
    let length ← Draft.lift (checkDims f.site dims)
    Draft.write (t.encodeArray depth f tag dims length)

/-- The decoding of one field; counters are numbered from `depth`. -/
def decode (t : Target) (depth : Nat) (f : FieldView) : Draft Unit :=
  match f.shape with
  | .primitive kind => Draft.write [readCall f.value kind.wireTag .scalar []]
  | .string kind => Draft.write [readCall f.value kind.wireTag .scalar []]
  | .enum e =>
    Draft.write
      [.assign f.value (enumFromTransfer e (.invoke (.var .reader) (.read .int32 .scalar) []))]
  | .struct _ => Draft.fail (nestedError f f.typeText)
  | .union u => Draft.fail (f.site.unionError u)
  | .sequence elementShape maxBound => do
    let (_, tag) ← Draft.lift (wireElement f .sequence elementShape)
    Draft.write [readCall f.value tag .sequence (boundArgument maxBound)]
  | .array elementShape dims => do
    let (element, tag) ← Draft.lift (wireElement f .array elementShape)
    let length ← Draft.lift (checkDims f.site dims)
    Draft.write (t.decodeArray depth f element tag dims length)

end Target

end InteropGen

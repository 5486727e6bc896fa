import InteropGen.Draft
import InteropGen.LoopNest
import InteropGen.Target.Slot

/-!
# What the conversions share

The places a conversion moves values between, the rules on sequence elements, and the note on lost
precision.
-/

set_option autoImplicit false

namespace InteropGen

open CSharp

namespace FieldView

/-- The property of the value object. -/
def value (f : FieldView) : Expr :=
  .field .value f.site.field

/-- The field of the transfer struct. -/
def native (f : FieldView) : Expr :=
  .field .transfer f.site.field

end FieldView

/-- Notes that a primitive loses precision at the native boundary, if it does. -/
def notePrecision (site : Site) (kind : PrimitiveKind) : Draft Unit :=
  if kind.isExtendedPrecision then Draft.note (.extendedPrecisionLoss site) else pure ()

/-- The same of an element. -/
def noteElementPrecision (site : Site) : Element → Draft Unit
  | .primitive kind => notePrecision site kind
  | _ => pure ()

/-- Whether elements are copied as they are. -/
def Platform.copiesDirectly (platform : Platform) : Element → Bool
  | .primitive kind => platform.isDirect kind
  | _ => false

/-- The element of a sequence, which may be an enum only where the layout supports it. -/
def Target.sequenceElement (t : Target) (f : FieldView) (shape : Shape) :
    Except GenError Element := do
  let element ← Element.classify f.site .sequence f.elementText shape
  match element with
  | .enum e =>
    if t.layout.supportsEnumSequences then return element
    else throw (.enumSequence f.site ("enum " ++ e.name.qualified) t.layout)
  | _ => return element

/-- The guard of a conversion from a handle that may be null. -/
def isHandle (e : Expr) : Expr :=
  .binary .unequal e (.constant .zeroHandle)

/-- `Math.Min(count, bound)`, or the count itself without a bound. -/
def bounded (count : Expr) (maxBound : Nat) : Expr :=
  if maxBound = 0 then count else .call .mathMin [count, .nat maxBound]

/-- The allocation of native memory for `place` and its entry in the release list. -/
def allocate (place bytes : Expr) : List Stmt :=
  [.assign place (.call .allocHGlobal [bytes]),
    .run (.invoke (.var .toRelease) .add [place])]

/-- The offset of the flattened element in a buffer of equal slots. -/
def slotOffset (dims : List Nat) (indices : List Expr) : Expr :=
  .binary .times (.paren (flatIndex dims indices)) (.var .size)

/-- The offset of a sequence element: the slots follow the element count. -/
def sequenceOffset (index : Expr) : Expr :=
  .sum [.constant .sizeOfInt, .binary .times index (.var .size)]

end InteropGen

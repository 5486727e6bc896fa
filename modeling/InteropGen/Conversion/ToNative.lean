import InteropGen.Conversion.Basic

/-!
# Value objects to transfer structs

The statements that move one field from the value object to the transfer struct. Native memory is
allocated for strings, sequences and out-of-line arrays; every allocation is entered in the release
list by the statement that follows it.
-/

set_option autoImplicit false

namespace InteropGen

open CSharp

namespace Target

/-- The statements that put a native copy of a string into a place. -/
def storeString (t : Target) (kind : StringKind) (place value : Expr) : List Stmt :=
  [.assign place (t.platform.stringToNative kind value),
    .run (.invoke (.var .toRelease) .add [place])]

/-- The call that converts a nested value object into a nested transfer struct. -/
def convertStruct (value place : Expr) : Stmt :=
  .run (.invoke value .toNative [.byRef place, .var .toRelease])

/-- One element on its way into an inline array. -/
def elementToNative (t : Target) (element : Element) (value place : Expr) : List Stmt :=
  match element with
  | .primitive kind => [.assign place (t.platform.primitiveToTransfer kind value)]
  | .string kind => t.storeString kind place value
  | .enum e => [.assign place (t.enumToTransfer e value)]
  | .struct _ => [convertStruct value place]

/-- What has to happen before an element can be stored in a slot, and the expression to store. -/
def stageToNative (t : Target) (element : Element) (value : Expr) : List Stmt × Expr :=
  match element with
  | .primitive _ | .enum _ => ([], value)
  | .string kind =>
    ([.declare .intPtr .text (t.platform.stringToNative kind value),
        .run (.invoke (.var .toRelease) .add [.var .text])],
      .var .text)
  | .struct s =>
    let transfer := t.transferTypeOf s.name
    ([.declare transfer .element (.newObject transfer []), convertStruct value (.var .element)],
      .var .element)

/-- An element stored in its slot. -/
def storeInSlot (t : Target) (element : Element) (buffer offset value : Expr) : List Stmt :=
  let (staging, staged) := t.stageToNative element value
  staging ++ [.run ((t.slot element).write buffer offset staged)]

/-- An inline array: a copy in one go where the elements allow it, else element by element. -/
def inlineArrayToNative (t : Target) (depth : Nat) (f : FieldView) (element : Element)
    (dims : List Nat) (length : Nat) : List Stmt :=
  let fresh : Stmt := .assign f.native (.newArray (t.elementTransferType element) [length] 0)
  if !multiDimensional dims && t.platform.copiesDirectly element then
    [fresh, .run (.call .arrayCopy [f.value, f.native, .nat length])]
  else
    fresh :: loopNest depth dims none fun indices =>
      t.elementToNative element (t.layout.elementAt f.value indices)
        (.index f.native [flatIndex dims indices])

/-- An out-of-line array: a buffer of slots. -/
def outOfLineArrayToNative (t : Target) (depth : Nat) (f : FieldView) (element : Element)
    (dims : List Nat) (length : Nat) : List Stmt :=
  [.block
    (.declare (.builtin .int) .size (t.slot element).size ::
      allocate f.native (.binary .times (.var .size) (.nat length)) ++
      loopNest depth dims none fun indices =>
        t.storeInSlot element f.native (slotOffset dims indices)
          (t.layout.elementAt f.value indices))]

/-- A sequence: a buffer with the element count, cut to the bound, and the slots after it. -/
def sequenceToNative (t : Target) (depth : Nat) (f : FieldView) (element : Element)
    (maxBound : Nat) : List Stmt :=
  let count : Expr := .conditional (.binary .equal f.value (.constant .null)) (.nat 0)
    (bounded (.listCount f.value) maxBound)
  [.block
    ([.declare (.builtin .int) .count count,
        .declare (.builtin .int) .size (t.slot element).size] ++
      allocate f.native
        (.sum [.constant .sizeOfInt, .binary .times (.var .count) (.var .size)]) ++
      [.run (.call (.write .int32) [f.native, .nat 0, .var .count])] ++
      countedLoop depth (.var .count) fun i =>
        t.storeInSlot element f.native (sequenceOffset i) (.index f.value [i]))]

/-- The conversion of one field to its transfer struct; counters are numbered from `depth`. -/
def toNative (t : Target) (depth : Nat) (f : FieldView) : Draft Unit :=
  match f.shape with
  | .primitive kind => do
    notePrecision f.site kind
    Draft.write [.assign f.native (t.platform.primitiveToTransfer kind f.value)]
  | .string kind => Draft.write (t.storeString kind f.native f.value)
  | .enum e => Draft.write [.assign f.native (t.enumToTransfer e f.value)]
  | .struct _ => Draft.write [convertStruct f.value f.native]
  | .union u => Draft.fail (f.site.unionError u)
  | .array elementShape dims => do
    let element ← Draft.lift (Element.classify f.site .array f.elementText elementShape)
    noteElementPrecision f.site element
    match ← Draft.lift (arrayTransfer f.site element dims) with
    | .inline length => Draft.write (t.inlineArrayToNative depth f element dims length)
    | .outOfLine length => Draft.write (t.outOfLineArrayToNative depth f element dims length)
  | .sequence elementShape maxBound => do
    let element ← Draft.lift (t.sequenceElement f elementShape)
    noteElementPrecision f.site element
    Draft.write (t.sequenceToNative depth f element maxBound)

end Target

end InteropGen

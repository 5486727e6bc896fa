import InteropGen.Conversion.Basic

/-!
# Transfer structs to value objects

The statements that move one field from the transfer struct back to the value object. Nothing here
allocates or frees native memory. A null handle gives an empty string or list, and leaves the rows
of an out-of-line array allocated and empty.
-/

set_option autoImplicit false

namespace InteropGen

open CSharp

namespace Target

/-- A nested value object made from a nested transfer struct. -/
def readStruct (s : StructType) (place native : Expr) : List Stmt :=
  [.assign place (.newObject (valueTypeOf s.name) []),
    .run (.invoke place .fromNative [native])]

/-- One element on its way out of an inline array. -/
def elementFromNative (t : Target) (element : Element) (place native : Expr) : List Stmt :=
  match element with
  | .primitive kind => [.assign place (t.platform.primitiveFromTransfer kind native)]
  | .string kind => [.assign place (t.platform.stringFromNative kind native)]
  | .enum e => [.assign place (enumFromTransfer e native)]
  | .struct s => readStruct s place native

/-- What has to happen to an element that was read from a slot, and the value it gives. -/
def stageFromNative (t : Target) (element : Element) (read : Expr) : List Stmt × Expr :=
  match element with
  | .primitive _ | .enum _ => ([], read)
  | .string kind =>
    ([.declare .intPtr .text read], t.platform.stringFromNative kind (.var .text))
  | .struct s =>
    let type := valueTypeOf s.name
    ([.declare type .element (.newObject type []),
        .run (.invoke (.var .element) .fromNative [read])],
      .var .element)

/-- An element taken from its slot and handed on. -/
def loadFromSlot (t : Target) (element : Element) (buffer offset : Expr)
    (use : Expr → Stmt) : List Stmt :=
  let (staging, staged) := t.stageFromNative element ((t.slot element).read buffer offset)
  staging ++ [use staged]

/-- The elements of an inline array, whose first row of rows is allocated already. -/
def inlineArrayFromNative (t : Target) (depth : Nat) (f : FieldView) (element : Element)
    (dims : List Nat) (length : Nat) : List Stmt :=
  if !multiDimensional dims && t.platform.copiesDirectly element then
    [.run (.call .arrayCopy [f.native, f.value, .nat length])]
  else
    loopNest depth dims (t.layout.rows? f.value element.valueType dims) fun indices =>
      t.elementFromNative element (t.layout.elementAt f.value indices)
        (.index f.native [flatIndex dims indices])

/-- The elements of an out-of-line array. Its rows are allocated even when the handle is null. -/
def outOfLineArrayFromNative (t : Target) (depth : Nat) (f : FieldView) (element : Element)
    (dims : List Nat) : List Stmt :=
  ((t.layout.rows? f.value element.valueType dims).elim [] (allRows depth)) ++
  [.when (isHandle f.native)
    (.declare (.builtin .int) .size (t.slot element).size ::
      loopNest depth dims none fun indices =>
        t.loadFromSlot element f.native (slotOffset dims indices) fun staged =>
          .assign (t.layout.elementAt f.value indices) staged)]

/-- The elements of a sequence, appended to a fresh list. -/
def sequenceFromNative (t : Target) (depth : Nat) (f : FieldView) (element : Element)
    (maxBound : Nat) (fresh : Expr) : List Stmt :=
  [.assign f.value fresh,
    .when (isHandle f.native)
      ([.declare (.builtin .int) .count
          (bounded (.call (.read .int32) [f.native, .nat 0]) maxBound),
        .declare (.builtin .int) .size (t.slot element).size] ++
        countedLoop depth (.var .count) fun i =>
          t.loadFromSlot element f.native (sequenceOffset i) fun staged =>
            .run (.invoke f.value .add [staged]))]

/-- The conversion of one field from its transfer struct; counters are numbered from `depth`. -/
def fromNative (t : Target) (depth : Nat) (f : FieldView) : Draft Unit :=
  match f.shape with
  | .primitive kind => do
    notePrecision f.site kind
    Draft.write [.assign f.value (t.platform.primitiveFromTransfer kind f.native)]
  | .string kind => Draft.write [.assign f.value (t.platform.stringFromNative kind f.native)]
  | .enum e => Draft.write [.assign f.value (enumFromTransfer e f.native)]
  | .struct s => Draft.write (readStruct s f.value f.native)
  | .union u => Draft.fail (f.site.unionError u)
  | .array elementShape dims => do
    let element ← Draft.lift (Element.classify f.site .array f.elementText elementShape)
    noteElementPrecision f.site element
    Draft.write [.assign f.value (t.layout.arrayAllocation element.valueType dims)]
    match ← Draft.lift (arrayTransfer f.site element dims) with
    | .inline length => Draft.write (t.inlineArrayFromNative depth f element dims length)
    | .outOfLine _ => Draft.write (t.outOfLineArrayFromNative depth f element dims)
  | .sequence elementShape maxBound => do
    let fresh ← Draft.lift (t.defaultValue f.site f.shape)
    let element ← Draft.lift (t.sequenceElement f elementShape)
    noteElementPrecision f.site element
    Draft.write (t.sequenceFromNative depth f element maxBound fresh)

end Target

end InteropGen

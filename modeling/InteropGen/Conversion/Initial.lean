import InteropGen.Conversion.Basic

/-!
# Initial values

The constructor statements that give one property its first value. A property of array type is
allocated in full: rows of jagged arrays are allocated one by one, and elements that would be null
are assigned.
-/

set_option autoImplicit false

namespace InteropGen

open CSharp

/-- What a fresh array is filled with, if its elements would be null otherwise. -/
def Element.fill? : Element → Option Expr
  | .string _ => some (.constant .emptyString)
  | .struct s => some (.newObject (valueTypeOf s.name) [])
  | .primitive _ | .enum _ => none

namespace Target

/-- The statements that complete a fresh array. -/
def fillArray (t : Target) (depth : Nat) (f : FieldView) (element : Element) (dims : List Nat) :
    List Stmt :=
  let rows := t.layout.rows? f.value element.valueType dims
  match element.fill? with
  | some fill =>
    loopNest depth dims rows fun indices =>
      [.assign (t.layout.elementAt f.value indices) fill]
  | none => rows.elim [] (allRows depth)

/-- The first value of one property; counters are numbered from `depth`. -/
def initial (t : Target) (depth : Nat) (f : FieldView) : Draft Unit := do
  let value ← Draft.lift (t.defaultValue f.site f.shape)
  Draft.write [.assign f.value value]
  match f.shape with
  | .array elementShape dims =>
    if t.layout.needsElementInit elementShape dims then
      let element ← Draft.lift (Element.classify f.site .array f.elementText elementShape)
      Draft.write (t.fillArray depth f element dims)
  | _ => pure ()

end Target

end InteropGen

import InteropGen.Conversion.Basic

/-!
# Release of transfer structs

The statements that reset the handles of one transfer-struct field after the memory behind them has
been freed. Freeing itself is one loop over the release list, which the enclosing method starts
with; here no memory is freed.
-/

set_option autoImplicit false

namespace InteropGen

open CSharp

/-- The call that releases a nested transfer struct. -/
def releaseStruct (s : StructType) (native : Expr) : Stmt :=
  .run (.call (.releaseNative (valueTypeOf s.name)) [.byRef native, .var .toRelease])

/-- A handle set back to null. -/
def resetHandle (native : Expr) : Stmt :=
  .assign native (.constant .zeroHandle)

/-- Statements for an inline array that may be null. -/
def whenPresent (native : Expr) (body : List Stmt) : List Stmt :=
  [.when (.binary .unequal native (.constant .null)) body]

/-- The release of an array: string handles are cleared, nested structs released one by one. -/
def releaseArray (depth : Nat) (native : Expr) : Element → ArrayTransfer → List Stmt
  | _, .outOfLine _ => [resetHandle native]
  | .string _, .inline _ =>
    whenPresent native [.run (.call .arrayClear [native, .nat 0, .arrayLength native])]
  | .struct s, .inline length =>
    whenPresent native (loopNest depth [length] none fun indices =>
      [releaseStruct s (.index native indices)])
  | .primitive _, .inline _ | .enum _, .inline _ => []

/-- The release of one field; counters are numbered from `depth`. -/
def releaseNative (depth : Nat) (f : FieldView) : Draft Unit :=
  match f.shape with
  | .primitive _ | .enum _ => pure ()
  | .string _ | .sequence _ _ => Draft.write [resetHandle f.native]
  | .struct s => Draft.write [releaseStruct s f.native]
  | .union u => Draft.fail (f.site.unionError u)
  | .array elementShape dims => do
    let element ← Draft.lift (Element.classify f.site .array f.elementText elementShape)
    let transfer ← Draft.lift (arrayTransfer f.site element dims)
    Draft.write (releaseArray depth f.native element transfer)

end InteropGen

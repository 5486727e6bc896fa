import InteropGen.Target.ValueType
import InteropGen.CSharp.Stmt

/-!
# Loop nests

Nests of counted loops over the dimensions of an array, the allocation of the rows of a jagged
array between them, and the position of an element in the flattened array.

* `loopNest` has one loop per dimension, the outermost first, and counters of consecutive depths.
* `flatIndex` adds the counters weighted by their strides, so that the last counter moves to
  neighbouring elements.
-/

set_option autoImplicit false

namespace InteropGen

open CSharp

/-- The largest 64-bit count; strides stop there. -/
def strideLimit : Nat := 2 ^ 64 - 1

/-- The distance between elements that differ by one in each index: the product of the dimensions
that follow. -/
def strides : List Nat → List Nat
  | [] => []
  | [_] => [1]
  | _ :: d :: rest =>
    let inner := strides (d :: rest)
    min (inner.headD 1 * d) strideLimit :: inner

/-- An index with its weight in the flattened array. -/
def weighted (stride : Nat) (index : Expr) : Expr :=
  if stride = 1 then index else .paren (.binary .times index (.nat stride))

/-- The row-major position of an element; surplus strides or indices are left out. -/
def flatIndex (dims : List Nat) (indices : List Expr) : Expr :=
  .sum (List.zipWith weighted (strides dims) indices)

/-- The rows of a jagged array that still have to be allocated. -/
structure RowAllocation where
  /-- The array that the outermost rows belong to. -/
  array : Expr
  elementType : Ty
  /-- All dimensions of the array. -/
  dims : List Nat

namespace RowAllocation

/-- The allocation of the row at the given indices. -/
def row (rows : RowAllocation) (indices : List Expr) : Stmt :=
  let level := indices.length
  .assign (jaggedAccess rows.array indices)
    (.newArray rows.elementType [rows.dims.getD level 0] (rows.dims.length - (level + 1)))

/-- The allocation at a level of a loop nest, none at the innermost one. -/
def atLevel (rows : Option RowAllocation) (indices : List Expr) : List Stmt :=
  match rows with
  | some rows => if indices.length < rows.dims.length then [rows.row indices] else []
  | none => []

end RowAllocation

/-- The counter of the loop at a depth. -/
def counter (depth : Nat) : Expr :=
  .var (.counter depth)

/-- One loop per dimension, counters numbered from `depth`, `outer` being the counters of the loops
around. The rows that a level needs are allocated at the start of its loop, and `body` is given all
counters. -/
def loopNestFrom (rows : Option RowAllocation) (body : List Expr → List Stmt) (depth : Nat)
    (outer : List Expr) : (dims : List Nat) → List Stmt
  | [] => body outer
  | d :: rest =>
    let counters := outer ++ [counter depth]
    [.countUp depth (.nat d)
      (RowAllocation.atLevel rows counters ++ loopNestFrom rows body (depth + 1) counters rest)]

/-- A loop nest over all dimensions. -/
def loopNest (depth : Nat) (dims : List Nat) (rows : Option RowAllocation)
    (body : List Expr → List Stmt) : List Stmt :=
  loopNestFrom rows body depth [] dims

/-- The allocation of every row, without a visit to the elements; nothing for one dimension. -/
def allRows (depth : Nat) (rows : RowAllocation) : List Stmt :=
  match rows.dims.dropLast with
  | [] => []
  | outer => loopNest depth outer (some rows) fun _ => []

/-- One loop up to a bound. -/
def countedLoop (depth : Nat) (bound : Expr) (body : Expr → List Stmt) : List Stmt :=
  [.countUp depth bound (body (counter depth))]

/-- The rows of an array in a layout, if that layout allocates them one by one. -/
def Layout.rows? (layout : Layout) (array : Expr) (elementType : Ty) (dims : List Nat) :
    Option RowAllocation :=
  if layout.allocatesRows dims then some ⟨array, elementType, dims⟩ else none

end InteropGen

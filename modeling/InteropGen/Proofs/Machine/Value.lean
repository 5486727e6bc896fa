import Mathlib.Logic.Function.Basic
import InteropGen.Proofs.IndexTuples
import InteropGen.CSharp.Unit

/-!
# Values of generated code

The data that generated code computes with. Integers of every width are one kind of value; a
conversion between widths is explicit in the code and is `Builtin.wrap` here. Arrays and objects are
trees: no two places of a conversion share one, because every array and object that generated code
stores is made by the expression that is stored.

* An array of several dimensions is nested, and every level knows how many indices reach its
  elements (`rank`), so that `a[i, j]` and `a[i][j]` are different things.
* `wrapTo_wrapTo` — a number that is wrapped to another range of the same size comes back.
-/

set_option autoImplicit false

namespace InteropGen.CSharp

/-- A place in native memory: a block and a distance from its start. -/
structure Address where
  block : Nat
  offset : Int
  deriving DecidableEq, Repr

/-- The address at a distance. -/
def Address.add (a : Address) (distance : Int) : Address :=
  { a with offset := a.offset + distance }

/-- Values. -/
inductive Value where
  | null
  | int (n : Int)
  | bool (b : Bool)
  | char (code : BitVec 16)
  | single (bits : BitVec 32)
  | double (bits : BitVec 64)
  | decimal (q : Rat)
  | text (units : List (BitVec 16))
  /-- A native pointer; `none` is the null pointer. -/
  | handle (address : Option Address)
  /-- A member of the enum at a path, by its number. -/
  | member (path : String) (n : Int)
  /-- An object or a transfer struct of the type at a path. -/
  | record (path : String) (fields : String → Value)
  | array (rank : Nat) (items : List Value)
  | list (items : List Value)

instance : Inhabited Value := ⟨.null⟩

/-- The least value of an integer type and how many values it has. -/
def Builtin.range? : Builtin → Option (Int × Int)
  | sbyte => some (-128, 256)
  | byte => some (0, 256)
  | short => some (-32768, 65536)
  | ushort => some (0, 65536)
  | int => some (-2147483648, 4294967296)
  | uint => some (0, 4294967296)
  | long => some (-9223372036854775808, 18446744073709551616)
  | ulong => some (0, 18446744073709551616)
  | float | double | decimal | bool | char => none

/-- The number with the same low bits in a range of numbers. -/
def wrapTo (least size n : Int) : Int :=
  (n - least) % size + least

theorem wrapTo_eq_self {least size n : Int} (hlow : least ≤ n) (hhigh : n < least + size) :
    wrapTo least size n = n := by
  unfold wrapTo
  rw [Int.emod_eq_of_lt (by omega) (by omega)]
  omega

theorem wrapTo_bounds (least : Int) {size : Int} (n : Int) (hsize : 0 < size) :
    least ≤ wrapTo least size n ∧ wrapTo least size n < least + size := by
  have hnonneg := Int.emod_nonneg (n - least) (Int.ne_of_gt hsize)
  have hlt := Int.emod_lt_of_pos (n - least) hsize
  unfold wrapTo
  omega

/-- Back and forth between two ranges of one size nothing is lost. -/
theorem wrapTo_wrapTo (other : Int) {least size n : Int} (hlow : least ≤ n) (hhigh : n < least + size) :
    wrapTo least size (wrapTo other size n) = n := by
  have hcongr : wrapTo least size (wrapTo other size n) = wrapTo least size n := by
    unfold wrapTo
    have hshift : (n - other) % size + other - least = (n - other) % size + (other - least) := by
      omega
    rw [hshift, Int.emod_add_emod]
    congr 2
    omega
  rw [hcongr, wrapTo_eq_self hlow hhigh]

/-- Numbers of 32 signed bits. -/
def InInt32 (n : Int) : Prop :=
  -2147483648 ≤ n ∧ n ≤ 2147483647

instance (n : Int) : Decidable (InInt32 n) :=
  inferInstanceAs (Decidable (_ ∧ _))

/-- The result of arithmetic on `int`, which is not checked: the low 32 bits of the exact result. -/
def int32 (n : Int) : Int :=
  wrapTo (-2147483648) 4294967296 n

theorem int32_eq_self {n : Int} (h : InInt32 n) : int32 n = n :=
  wrapTo_eq_self h.1 (by have := h.2; omega)

theorem int32_natCast {n : Nat} (h : n ≤ 2147483647) : int32 n = n :=
  int32_eq_self ⟨by omega, by omega⟩

theorem inInt32_int32 (n : Int) : InInt32 (int32 n) := by
  have hsize : (0 : Int) < 4294967296 := by omega
  have h := wrapTo_bounds (-2147483648) n hsize
  unfold InInt32 int32
  omega

/-- A result is exact just where it fits. -/
theorem int32_eq_self_iff {n : Int} : int32 n = n ↔ InInt32 n :=
  ⟨fun h => h ▸ inInt32_int32 n, int32_eq_self⟩

/-- The low bits of a sum are those of the sum of the low bits. -/
theorem int32_add_int32 (a b : Int) : int32 (a + int32 b) = int32 (a + b) := by
  unfold int32 wrapTo
  omega

/-- The value of a numeral or of a length; one that is no `int` has none. -/
def int32? (n : Int) : Option Value :=
  if InInt32 n then some (.int n) else none

@[simp] theorem int32?_of_inInt32 {n : Int} (h : InInt32 n) : int32? n = some (.int n) :=
  if_pos h

namespace Value

def int? : Value → Option Int
  | .int n => some n
  | _ => none

/-- A number as an index. -/
def index? : Value → Option Nat
  | .int n => if 0 ≤ n then some n.toNat else none
  | _ => none

@[simp] theorem index?_natCast (n : Nat) : index? (.int n) = some n := by
  simp [index?]

theorem mapM_index? (idx : List Nat) :
    (idx.map fun (i : Nat) => Value.int i).mapM index? = some idx := by
  induction idx with
  | nil => rfl
  | cons i rest ih =>
    rw [List.map_cons, List.mapM_cons, index?_natCast, ih]
    rfl

/-- The field of a record. -/
def field? (name : String) : Value → Option Value
  | .record _ fields => some (fields name)
  | _ => none

/-- The record with a field replaced. -/
def setField? (name : String) (x : Value) : Value → Option Value
  | .record path fields => some (.record path (Function.update fields name x))
  | _ => none

/-- The element at a tuple of indices, one level of the array for each. The rank of a level is the
number of indices that are left there. -/
def at? : List Nat → Value → Option Value
  | [], v => some v
  | i :: inner, .array rank items =>
    if rank = inner.length + 1 then items[i]? >>= at? inner else none
  | _ :: _, _ => none

/-- The array with the element at a tuple of indices replaced. -/
def put? (x : Value) : List Nat → Value → Option Value
  | [], _ => some x
  | i :: inner, .array rank items =>
    if rank = inner.length + 1 then do
      let item ← items[i]?
      let changed ← put? x inner item
      return .array rank (items.set i changed)
    else none
  | _ :: _, _ => none

/-- `v[i, j]`, of arrays and of lists. -/
def item? (indices : List Nat) : Value → Option Value
  | .list items =>
    match indices with
    | [i] => items[i]?
    | _ => none
  | v => v.at? indices

/-- What `v[i, j] = x` leaves of `v`. -/
def setItem? (x : Value) (indices : List Nat) : Value → Option Value
  | .list items =>
    match indices with
    | [i] => if i < items.length then some (.list (items.set i x)) else none
    | _ => none
  | v => put? x indices v

/-- Terms added from left to right, to what comes before them. -/
def sum? (before : Int) : List Value → Option Value
  | [] => some (.int before)
  | .int n :: rest => sum? (int32 (before + n)) rest
  | _ :: _ => none

/-- Whether two values are equal, where generated code asks so: numbers, handles, and any
reference compared with null. -/
def same? : Value → Value → Option Bool
  | .int a, .int b => some (a = b)
  | .handle a, .handle b => some (a = b)
  | .null, .null => some true
  | .null, .text _ | .null, .array _ _ | .null, .list _ | .null, .record _ _ => some false
  | .text _, .null | .array _ _, .null | .list _, .null | .record _ _, .null => some false
  | _, _ => none

/-- The value that clearing an array leaves in place of a scalar. -/
def cleared? : Value → Option Value
  | .int _ => some (.int 0)
  | .bool _ => some (.bool false)
  | .char _ => some (.char 0)
  | .single _ => some (.single 0)
  | .double _ => some (.double 0)
  | .handle _ => some (.handle none)
  | .member path _ => some (.member path 0)
  | _ => none

end Value

end InteropGen.CSharp

import InteropGen.Catalog
import InteropGen.Proofs.Machine.Run

/-!
# Accesses of a conversion to native memory

What the statements of a conversion do to the block behind a field and to the list of that field,
with their loops unrolled: how many bytes are allocated, which bytes are written and read, and which
items the list gets. The numbers in the code have values here, and what the items are is left open.
So a conversion has its accesses for a list of any length, whatever is in it.

* `Expr.amount?` — the number that an expression stands for, in 32 bits as the code computes it;
* `Expr.origins?`, `Expr.loads?` — what a value is made from, and what its evaluation reads;
* `bodyAccesses?` — the accesses of statements. There are none if a numeral is no `int`, if an index
  lies outside of the list, or if a statement does something else.

A block of a negative number of bytes cannot be allocated, and bytes outside of the block belong to
something else. Such accesses are told here as the code asks for them.
-/

set_option autoImplicit false

namespace InteropGen.CSharp

/-- What a value is made from. -/
inductive Origin where
  /-- A number that is known. -/
  | number (n : Int)
  /-- An item of the list. -/
  | item (position : Int)
  /-- Bytes of the block: how far from its start, and how many. -/
  | slot (offset : Int) (width : Nat)
  deriving DecidableEq, Repr

/-- An effect on the block or on the list of a field. -/
inductive Access where
  /-- A new block of so many bytes is put into the field of the transfer struct. -/
  | reserve (bytes : Int)
  /-- Bytes of the block are written. -/
  | store (offset : Int) (width : Nat) (origins : List Origin)
  /-- Bytes of the block are read. -/
  | load (offset : Int) (width : Nat)
  /-- A new list is put into the property. -/
  | fresh
  /-- The list gets an item at its end. -/
  | append (origins : List Origin)
  deriving DecidableEq, Repr

/-- What a conversion starts from. -/
inductive Given where
  /-- The list of a property: null, or with so many items. -/
  | list (items : Option Nat)
  /-- The handle in a transfer struct: null, or of a block with a number at its start. -/
  | block (stored : Option Int)

/-- What is known inside of a body. -/
structure Outlook where
  machine : Machine
  /-- The field that is converted. -/
  field : String
  given : Given
  /-- The local variables that are numbers. -/
  numbers : List (Local × Int)
  /-- The type of another local variable, and what its value is made from. -/
  staged : List (Local × Ty × List Origin)

namespace Outlook

/-- The start of a method body. -/
def start (machine : Machine) (field : String) (given : Given) : Outlook :=
  ⟨machine, field, given, [], []⟩

/-- A round of the loop at a depth. -/
def round (o : Outlook) (depth : Nat) (i : Int) : Outlook :=
  { o with numbers := (.counter depth, i) :: o.numbers }

/-- Whether a condition holds, if it asks for the list or for the handle. -/
def holds? (o : Outlook) : Expr → Option Bool
  | .binary .equal (.field .value name) (.constant .null) =>
    match o.given with
    | .list items => if name = o.field then some items.isNone else none
    | .block _ => none
  | .binary .unequal (.field .transfer name) (.constant .zeroHandle) =>
    match o.given with
    | .block stored => if name = o.field then some stored.isSome else none
    | .list _ => none
  | _ => none

/-- The number of items in the list of a field. -/
def itemCount? (o : Outlook) (name : String) : Option Int :=
  match o.given with
  | .list (some n) => if name = o.field ∧ InInt32 n then some n else none
  | _ => none

/-- The item of the list at a position. -/
def item? (o : Outlook) (name : String) (position : Int) : Option Origin :=
  match o.given with
  | .list (some n) =>
    if name = o.field ∧ 0 ≤ position ∧ position < n then some (.item position) else none
  | _ => none

/-- The number at the start of the block. -/
def stored? (o : Outlook) (name : String) (offset : Int) : Option Int :=
  match o.given with
  | .block stored => if name = o.field ∧ offset = 0 then stored else none
  | .list _ => none

/-- Whether a block is filled from the list of the field. -/
def fills (o : Outlook) (name : String) : Bool :=
  match o.given with
  | .list _ => name = o.field
  | .block _ => false

/-- Whether the list of the field is built. -/
def builds (o : Outlook) (name : String) : Bool :=
  match o.given with
  | .list _ => false
  | .block _ => name = o.field

/-- One more origin for the value of a local variable. -/
def feed (o : Outlook) (name : Local) (origins : List Origin) : Outlook :=
  match o.staged.lookup name with
  | some (type, known) => { o with staged := (name, type, appendNew known origins) :: o.staged }
  | none => o

end Outlook

mutual

/-- The number that an expression stands for. -/
def Expr.amount? (o : Outlook) : Expr → Option Int
  | .nat n => if InInt32 n then some n else none
  | .constant c => (o.machine.constant c).int?
  | .var name => o.numbers.lookup name
  | .paren inner => inner.amount? o
  | .listCount (.field .value name) => o.itemCount? name
  | .binary .times left right => do
    let a ← left.amount? o
    let b ← right.amount? o
    return int32 (a * b)
  | .sum terms => totalAmount? o 0 terms
  | .conditional condition whenTrue whenFalse => do
    if ← o.holds? condition then whenTrue.amount? o else whenFalse.amount? o
  | .call .mathMin [left, right] => do
    let a ← left.amount? o
    let b ← right.amount? o
    return min a b
  | .call (.read .int32) [.field .transfer name, offset] => do
    o.stored? name (← offset.amount? o)
  | .call (.sizeOf (.named path)) [] => some (o.machine.structSize path)
  | _ => none

/-- Terms added from left to right, to what comes before them. -/
def totalAmount? (o : Outlook) (before : Int) : List Expr → Option Int
  | [] => some before
  | e :: rest => do
    let n ← e.amount? o
    totalAmount? o (int32 (before + n)) rest

end

/-- How far from the start of the block an address lies that code writes to, given as a pointer and
a distance. -/
def Expr.target? (o : Outlook) (pointer distance : Expr) : Option Int :=
  match pointer with
  | .field .transfer name => if o.fills name then distance.amount? o else none
  | _ => none

/-- The same of an address that code reads from. A null handle has none. -/
def Expr.source? (o : Outlook) (pointer distance : Expr) : Option Int :=
  match pointer, o.given with
  | .field .transfer name, .block (some _) => if name = o.field then distance.amount? o else none
  | _, _ => none

mutual

/-- What the value of an expression is made from. -/
def Expr.origins? (o : Outlook) : Expr → Option (List Origin)
  | .nat _ | .constant _ => some []
  | .var name =>
    match o.staged.lookup name with
    | some (_, origins) => some origins
    | none => (o.numbers.lookup name).map fun n => [.number n]
  | .index (.field .value name) [position] => do
    return [← o.item? name (← position.amount? o)]
  | .paren inner | .cast _ inner | .uncheckedCast _ inner => inner.origins? o
  | .binary _ left right => do
    let a ← left.origins? o
    let b ← right.origins? o
    return appendNew a b
  | .conditional condition whenTrue whenFalse => do
    let c ← condition.origins? o
    let a ← whenTrue.origins? o
    let b ← whenFalse.origins? o
    return appendNew (appendNew c a) b
  | .call (.read word) [pointer, distance] => do
    return [.slot (← pointer.source? o distance) (o.machine.wordWidth word)]
  | .call (.ptrToStructure (.named path)) [.call .intPtrAdd [pointer, distance]] => do
    return [.slot (← pointer.source? o distance) (o.machine.structSize path)]
  | .call .intPtrAdd _ => none
  | .call _ arguments => allOrigins? o arguments
  | .newObject _ arguments => allOrigins? o arguments
  | _ => none

/-- What the values of expressions are made from. -/
def allOrigins? (o : Outlook) : List Expr → Option (List Origin)
  | [] => some []
  | e :: rest => do
    let a ← e.origins? o
    let b ← allOrigins? o rest
    return appendNew a b

end

mutual

/-- What the evaluation of an expression reads from the block. What is not always evaluated may not
read anything. -/
def Expr.loads? (o : Outlook) : Expr → Option (List Access)
  | .nat _ | .constant _ | .var _ | .field _ _ => some []
  | .paren inner | .cast _ inner | .uncheckedCast _ inner | .listCount inner => inner.loads? o
  | .index base indices => do
    let first ← base.loads? o
    let rest ← allLoads? o indices
    return first ++ rest
  | .binary .coalesce left right => do
    let loads ← left.loads? o
    if (← right.loads? o) = [] then return loads else none
  | .binary _ left right => do
    let first ← left.loads? o
    let rest ← right.loads? o
    return first ++ rest
  | .sum terms => allLoads? o terms
  | .conditional condition whenTrue whenFalse => do
    let loads ← condition.loads? o
    if (← whenTrue.loads? o) = [] ∧ (← whenFalse.loads? o) = [] then return loads else none
  | .call (.read word) [pointer, distance] => do
    let loads ← distance.loads? o
    return loads ++ [.load (← pointer.source? o distance) (o.machine.wordWidth word)]
  | .call (.ptrToStructure (.named path)) [.call .intPtrAdd [pointer, distance]] => do
    let loads ← distance.loads? o
    return loads ++ [.load (← pointer.source? o distance) (o.machine.structSize path)]
  | .call _ arguments => allLoads? o arguments
  | .newObject _ arguments => allLoads? o arguments
  | _ => none

/-- What the evaluation of expressions reads, from left to right. -/
def allLoads? (o : Outlook) : List Expr → Option (List Access)
  | [] => some []
  | e :: rest => do
    let first ← e.loads? o
    let more ← allLoads? o rest
    return first ++ more

end

/-- The accesses of a call, and what is known after it. -/
def Expr.callAccesses? (o : Outlook) : (call : Expr) → Option (List Access × Outlook)
  | .invoke (.var .toRelease) .add [item] => do
    return (← item.loads? o, o)
  | .invoke (.field .value name) .add [item] => do
    let loads ← item.loads? o
    let origins ← item.origins? o
    if o.builds name then return (loads ++ [.append origins], o) else none
  | .invoke object .toNative [.byRef (.var name), .var .toRelease] => do
    return (← object.loads? o, o.feed name (← object.origins? o))
  | .invoke (.var name) .fromNative [native] => do
    return (← native.loads? o, o.feed name (← native.origins? o))
  | .call (.write word) [pointer, distance, value] => do
    let loads ← allLoads? o [distance, value]
    let offset ← pointer.target? o distance
    return (loads ++ [.store offset (o.machine.wordWidth word) (← value.origins? o)], o)
  | .call .structureToPtr
      [.var name, .call .intPtrAdd [pointer, distance], .constant .falseValue] => do
    let loads ← distance.loads? o
    let offset ← pointer.target? o distance
    match ← o.staged.lookup name with
    | (.named path, origins) =>
      return (loads ++ [.store offset (o.machine.structSize path) origins], o)
    | _ => none
  | _ => none

/-- The accesses of a statement that has no statements inside of it, and what is known after it. -/
def Stmt.leafAccesses? (o : Outlook) : Stmt → Option (List Access × Outlook)
  | .declare (.builtin .int) name value => do
    let loads ← value.loads? o
    let n ← value.amount? o
    return (loads, { o with numbers := (name, n) :: o.numbers })
  | .declare type name value => do
    let loads ← value.loads? o
    let origins ← value.origins? o
    return (loads, { o with staged := (name, type, origins) :: o.staged })
  | .assign (.field .transfer name) (.call .allocHGlobal [bytes]) => do
    let loads ← bytes.loads? o
    let n ← bytes.amount? o
    if o.fills name then return (loads ++ [.reserve n], o) else none
  | .assign (.field .value name) (.newObject (.list _) arguments) => do
    let loads ← allLoads? o arguments
    let _ ← arguments.mapM (Expr.amount? o)
    if o.builds name then return (loads ++ [.fresh], o) else none
  | .run call => call.callAccesses? o
  | _ => none

mutual

/-- The accesses of a statement, and what is known after it. What is declared in a block is not
known outside of it. -/
def Stmt.accesses? : Stmt → Outlook → Option (List Access × Outlook)
  | .block body, o => do
    return (← bodyAccesses? body o, o)
  | .countUp depth bound body, o => do
    let n ← bound.amount? o
    let rounds ← (List.range n.toNat).mapM fun (i : Nat) => bodyAccesses? body (o.round depth i)
    return (rounds.flatten, o)
  | .when condition body, o => do
    if ← o.holds? condition then return (← bodyAccesses? body o, o) else return ([], o)
  | s, o => s.leafAccesses? o

/-- The accesses of statements one after the other. -/
def bodyAccesses? : List Stmt → Outlook → Option (List Access)
  | [], _ => some []
  | s :: rest, o => do
    let (accesses, o) ← s.accesses? o
    let more ← bodyAccesses? rest o
    return accesses ++ more

end

namespace Access

/-- The bytes that an access writes: how far from the start of the block, and how many. -/
def stores : Access → List (Int × Nat)
  | .store offset width _ => [(offset, width)]
  | _ => []

/-- The bytes that an access reads. -/
def loads : Access → List (Int × Nat)
  | .load offset width => [(offset, width)]
  | _ => []

/-- What an item that the list gets is made from. -/
def appended : Access → List (List Origin)
  | .append origins => [origins]
  | _ => []

end Access

end InteropGen.CSharp

import InteropGen.Catalog
import InteropGen.Proofs.Machine.Nest

/-!
# What a conversion does to arrays

The statements of a conversion with their loops unrolled, as a sequence of events: which array is
allocated where, and which place is assigned from which others. Places are told apart by their
indices, which are numbers here, and in native memory by their distance in bytes. What the events do
not tell is the values that are moved; so a conversion has its events whatever the objects and native
memory hold, except that a handle is known to be null or not.

* `Expr.int?` — the number that an expression stands for, in 32 bits as the code computes it;
* `Expr.spot?` — the place that an expression denotes;
* `bodyTrace?` — the events of statements; there are none if an index is negative, or if a statement
  does something that conversions of arrays do not.

An allocation of a negative number of bytes throws. It is an event like the others here, and what
comes after it is what the statements would do if it did not.
-/

set_option autoImplicit false

namespace InteropGen.CSharp

/-- A place that generated code refers to. -/
inductive Spot where
  /-- A field of either object, or an element of it: a list of indices for each pair of brackets. -/
  | element (owner : Owner) (field : String) (indices : List (List Nat))
  /-- A slot for a structure of a type, so many bytes behind a handle in the transfer struct. -/
  | slot (field : String) (type : Ty) (offset : Int)
  deriving DecidableEq, Repr

/-- An effect on arrays and buffers. -/
inductive Event where
  /-- A new array is put into a place; `inner` pairs of brackets are left for its rows. -/
  | allocate (place : Spot) (element : Ty) (dims : List Nat) (inner : Nat)
  /-- A handle to so many bytes of new memory, for structures of a type, is put into a place. -/
  | reserve (place : Spot) (type : Ty) (bytes : Int)
  /-- A place is assigned a value that is made from others. -/
  | assign (place : Spot) (sources : List Spot)
  /-- The object or structure in a place is filled in by a call. -/
  | fill (place : Spot) (sources : List Spot)
  /-- The first items of a field are copied to those of another. -/
  | copy (source target : Owner × String) (length : Nat)
  /-- Places are read. -/
  | visit (places : List Spot)
  deriving DecidableEq, Repr

/-- What is known inside of a body. -/
structure Scope where
  /-- What the code runs on; it knows the sizes of structures. -/
  machine : Machine
  /-- The loop counters. -/
  env : Env
  /-- Which handles of the transfer struct are not null. -/
  present : String → Bool
  /-- The type of a local variable and the places that its value comes from. -/
  locals : List (Local × Ty × List Spot)
  /-- The type that the variable `size` is the size of. -/
  slotType : Option Ty

/-- The start of a method body. -/
def Scope.start (machine : Machine) (present : String → Bool) : Scope :=
  ⟨machine, [], present, [], none⟩

/-- The numbers among variables. -/
def Env.int? (env : Env) (name : Local) : Option Int :=
  env.lookup name >>= Value.int?

/-- The size of a structure. -/
def Machine.size? (m : Machine) : Ty → Option Int
  | .named path => some (m.structSize path)
  | _ => none

/-- The numbers among loop counters and the variable `size`. -/
def Scope.int? (sc : Scope) : Local → Option Int
  | .size => sc.slotType >>= sc.machine.size?
  | name => sc.env.int? name

mutual

/-- The number that an expression stands for, given those of variables. -/
def Expr.int? (vars : Local → Option Int) : Expr → Option Int
  | .nat n => if InInt32 n then some n else none
  | .var name => vars name
  | .paren inner => inner.int? vars
  | .binary .times left right => do
    let a ← left.int? vars
    let b ← right.int? vars
    return int32 (a * b)
  | .sum terms => sumInt? vars 0 terms
  | _ => none

/-- Terms added from left to right, to what comes before them. -/
def sumInt? (vars : Local → Option Int) (before : Int) : List Expr → Option Int
  | [] => some before
  | e :: rest => do
    let n ← e.int? vars
    sumInt? vars (int32 (before + n)) rest

end

theorem Expr.int?_times_nat {vars : Local → Option Int} {left : Expr} {a : Int}
    (hleft : left.int? vars = some a) {n : Nat} (hn : InInt32 n) :
    (Expr.binary .times left (.nat n)).int? vars = some (int32 (a * n)) := by
  simp [Expr.int?, hleft, hn]

/-- The index that an expression stands for. -/
def Expr.number? (env : Env) (e : Expr) : Option Nat :=
  e.int? env.int? >>= fun n => Value.index? (.int n)

/-- The place that an expression denotes. -/
def Expr.spot? (sc : Scope) : Expr → Option Spot
  | .field owner name => some (.element owner name [])
  | .index base indices => do
    let numbers ← indices.mapM (Expr.number? sc.env)
    match ← base.spot? sc with
    | .element owner name groups => return .element owner name (groups ++ [numbers])
    | .slot _ _ _ => none
  | .call .intPtrAdd [.field .transfer name, .binary .times (.paren position) (.var .size)] => do
    let type ← sc.slotType
    let offset ← (Expr.binary .times (.paren position) (.var .size)).int? sc.int?
    return .slot name type offset
  | _ => none

mutual

/-- The places that the value of an expression comes from. -/
def Expr.sources? (sc : Scope) : Expr → Option (List Spot)
  | .nat _ | .constant _ | .defaultOf _ => some []
  | .newObject _ arguments => allSources? sc arguments
  | .var name => (sc.locals.lookup name).map (·.2)
  | .field owner name => some [.element owner name []]
  | .index base indices => ((Expr.index base indices).spot? sc).map ([·])
  | .paren inner | .cast _ inner | .uncheckedCast _ inner => inner.sources? sc
  | .binary _ left right => do
    let a ← left.sources? sc
    let b ← right.sources? sc
    return appendNew a b
  | .conditional condition whenTrue whenFalse => do
    let c ← condition.sources? sc
    let a ← whenTrue.sources? sc
    let b ← whenFalse.sources? sc
    return appendNew (appendNew c a) b
  | .call (.ptrToStructure type) [pointer] => do
    match ← pointer.spot? sc with
    | .slot name stored offset => if type = stored then some [.slot name stored offset] else none
    | .element _ _ _ => none
  | .call .intPtrAdd _ => none
  | .call _ arguments => allSources? sc arguments
  | .invoke (.var .reader) (.read _ _) _ => some []
  | _ => none

/-- The places that the values of expressions come from. -/
def allSources? (sc : Scope) : List Expr → Option (List Spot)
  | [] => some []
  | e :: rest => do
    let a ← e.sources? sc
    let b ← allSources? sc rest
    return appendNew a b

end

/-- Whether an expression is the local variable that a nested object or struct is staged in. -/
def Expr.isElement : Expr → Bool
  | .var .element => true
  | _ => false

/-- A visit of places, if there are any. -/
def visits : List Spot → List Event
  | [] => []
  | places => [.visit places]

/-- The events of an assignment to a place. -/
def Expr.assignTrace? (sc : Scope) (place : Expr) : (value : Expr) → Option (List Event)
  | .newArray element dims inner => do
    return [.allocate (← place.spot? sc) element dims inner]
  | .call .allocHGlobal arguments =>
    match arguments with
    | [.binary .times (.var .size) (.nat n)] => do
      let bytes ← (Expr.binary .times (.var .size) (.nat n)).int? sc.int?
      return [.reserve (← place.spot? sc) (← sc.slotType) bytes]
    | _ => none
  | value => do
    return [.assign (← place.spot? sc) (← value.sources? sc)]

/-- The events of a call. The only local variable that a call changes is `element`. -/
def Expr.callTrace? (sc : Scope) : (call : Expr) → Option (List Event)
  | .call .arrayCopy [.field source name, .field target name', .nat n] =>
    some [.copy (source, name) (target, name') n]
  | .call .structureToPtr [.var .element, pointer, .constant .falseValue] => do
    let (type, sources) ← sc.locals.lookup .element
    match ← pointer.spot? sc with
    | .slot name stored offset =>
      if type = stored then some [.assign (.slot name stored offset) sources] else none
    | .element _ _ _ => none
  | .invoke (.var .toRelease) .add [item] => do
    return visits (← item.sources? sc)
  | .invoke object .toNative [.byRef place, .var .toRelease] => do
    match ← object.spot? sc with
    | .element .value name groups =>
      if place.isElement then return [.visit [.element .value name groups]]
      match ← place.spot? sc with
      | .element .transfer name' groups' =>
        return [.fill (.element .transfer name' groups') [.element .value name groups]]
      | _ => none
    | _ => none
  | .invoke object .fromNative [native] => do
    if object.isElement then return visits (← native.sources? sc)
    return [.fill (← object.spot? sc) (← native.sources? sc)]
  | _ => none

/-- The events of a statement that has no statements inside of it. -/
def Stmt.leafTrace? (sc : Scope) : Stmt → Option (List Event)
  | .assign place value => place.assignTrace? sc value
  | .declare _ (.counter _) _ => none
  | .declare _ _ value => do return visits (← value.sources? sc)
  | .run call => call.callTrace? sc
  | _ => none

namespace Scope

/-- One more place that the value of a local variable comes from. -/
def feed (sc : Scope) (name : Local) (sources : List Spot) : Scope :=
  match sc.locals.lookup name with
  | some (type, known) => { sc with locals := (name, type, appendNew known sources) :: sc.locals }
  | none => sc

/-- The type that an expression is the size of. -/
def sizedType? : Expr → Option Ty
  | .call (.sizeOf type) [] => some type
  | _ => none

/-- What is known after a statement. Only declarations, and calls that fill in a local variable,
change that. -/
def after (sc : Scope) : Stmt → Scope
  | .declare _ .size value => { sc with slotType := sizedType? value }
  | .declare type name value =>
    { sc with locals := (name, type, (value.sources? sc).getD []) :: sc.locals }
  | .run (.invoke object .toNative [.byRef (.var .element), .var .toRelease]) =>
    sc.feed .element (object.spot? sc).toList
  | .run (.invoke (.var .element) .fromNative [native]) =>
    sc.feed .element ((native.sources? sc).getD [])
  | _ => sc

/-- A round of the loop at a depth. -/
def round (sc : Scope) (depth i : Nat) : Scope :=
  { sc with env := (.counter depth, .int i) :: sc.env }

/-- Whether a condition holds, if it asks for a handle. -/
def holds? (sc : Scope) : Expr → Option Bool
  | .binary .unequal (.field .transfer name) (.constant .zeroHandle) => some (sc.present name)
  | _ => none

end Scope

mutual

/-- The events of a statement. -/
def Stmt.trace? : Stmt → Scope → Option (List Event)
  | .countUp depth (.nat n) body, sc =>
    ((List.range n).mapM fun i => bodyTrace? body (sc.round depth i)).map List.flatten
  | .block body, sc => bodyTrace? body sc
  | .when condition body, sc => do
    if ← sc.holds? condition then bodyTrace? body sc else return []
  | s, sc => s.leafTrace? sc

/-- The events of statements one after the other. -/
def bodyTrace? : List Stmt → Scope → Option (List Event)
  | [], _ => some []
  | s :: rest, sc => do
    let events ← s.trace? sc
    let more ← bodyTrace? rest (sc.after s)
    return events ++ more

end

namespace Event

/-- The places that an event changes, copied items one by one. -/
def writes : Event → List Spot
  | .assign place _ | .fill place _ => [place]
  | .copy _ (owner, field) n => (List.range n).map fun i => .element owner field [[i]]
  | .allocate _ _ _ _ | .reserve _ _ _ | .visit _ => []

/-- The places that an event puts a new value into. -/
def assigns : Event → List Spot
  | .fill _ _ => []
  | event => event.writes

/-- The places that an event changes, each with one that its value comes from. -/
def flows : Event → List (Spot × Spot)
  | .assign place sources | .fill place sources => sources.map (place, ·)
  | .copy (owner, field) (owner', field') n =>
    (List.range n).map fun i => (.element owner' field' [[i]], .element owner field [[i]])
  | .allocate _ _ _ _ | .reserve _ _ _ | .visit _ => []

/-- The type of the array that is allocated, with its dimensions. -/
def allocations : Event → List (Spot × Ty × List Nat)
  | .allocate place element dims inner =>
    [(place, .array (nestedArrays element inner) dims.length, dims)]
  | _ => []

/-- The buffers that are allocated, with their sizes in bytes. -/
def reservations : Event → List (Spot × Ty × Int)
  | .reserve place type bytes => [(place, type, bytes)]
  | _ => []

/-- How many items are copied in one go. -/
def copies : Event → List Nat
  | .copy _ _ n => [n]
  | _ => []

end Event

end InteropGen.CSharp

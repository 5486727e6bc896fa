import InteropGen.Proofs.Machine.Memory

/-!
# Running generated code

The meaning of statements and expressions, as an evaluator that has no result where C# would throw,
would not compile, or would touch memory that it does not own.

* Arithmetic on `int` is not checked: it keeps the low 32 bits. An allocation of a negative number
  of bytes throws, and a numeral or a length has to be an `int`.
* A loop runs up to the bound that it finds at its start, and has no result if its body changes that
  bound; so has a loop over the release list whose body changes the list.
* A local variable lives to the end of its block.
* The wire is a queue of what the calls of the codec wrote. A read gives what the matching write was
  handed, and has no result where another call wrote the next item. Bounds and lengths are numerals
  in these calls, of whichever integer type holds them.
* A call of a generated method runs its body with an object and a transfer struct of its own. What
  the method leaves in them is put back where the caller took them from. `Machine.library` bounds
  the nesting of such calls; without a call there is no recursion in generated code.
-/

set_option autoImplicit false

namespace InteropGen.CSharp

/-- What generated code is compiled with: the declarations of its types, the sizes of native data,
and the rounding between decimals and doubles. -/
structure Machine where
  decls : String → Option TypeDecl
  handleSize : Nat
  structSize : String → Nat
  narrow : Rat → BitVec 64
  /-- Not every double fits a decimal. -/
  widen : BitVec 64 → Option Rat
  handleSize_pos : 0 < handleSize
  handleSize_le : handleSize ≤ 2147483647
  structSize_pos : ∀ path, 0 < structSize path
  structSize_le : ∀ path, structSize path ≤ 2147483647

/-- What one call of the wire codec moved. -/
structure WireItem where
  tag : WireTag
  form : WireForm
  /-- The bound of a sequence, if there is one, or the length of an array. -/
  arguments : List Nat
  value : Value

/-- The objects at hand, native memory, and the wire. -/
structure State where
  /-- The object whose method runs. -/
  self : Value
  /-- The transfer struct of that method. -/
  wrapper : Value
  /-- The release list. -/
  released : List (Option Address)
  memory : Memory
  wire : List WireItem

/-- The owner of fields, as it stands. -/
def State.get (st : State) : Owner → Value
  | .value => st.self
  | .transfer => st.wrapper

/-- The state with an owner of fields replaced. -/
def State.set (st : State) (owner : Owner) (x : Value) : State :=
  match owner with
  | .value => { st with self := x }
  | .transfer => { st with wrapper := x }

/-- Local variables, the innermost first. -/
abbrev Env := List (Local × Value)

/-- The variables that remain when a block is left which was entered with `outer`. -/
def Env.leave (outer inner : Env) : Env :=
  inner.drop (inner.length - outer.length)

/-- The variables after an assignment to one of them, the innermost of its name. -/
def Env.assign? (name : Local) (x : Value) : Env → Option Env
  | [] => none
  | b :: rest =>
    if b.1 = name then some ((name, x) :: rest) else (Env.assign? name x rest).map (b :: ·)

/-- The generated methods that conversions call. -/
inductive Member where
  | constructor | toNative | fromNative | releaseNative
  deriving DecidableEq, Repr

/-- The body of a method. -/
def ValueClass.body (c : ValueClass) : Member → List Stmt
  | .constructor => c.constructor
  | .toNative => c.toNative
  | .fromNative => c.fromNative
  | .releaseNative => c.releaseNative

/-- What code can refer to beyond its own method: default values of types, and methods by the path
of their class. -/
structure Library where
  zero : Ty → Value
  call : (path : String) → Member → State → Option State

namespace Machine

variable (m : Machine)

/-- The bytes of a word. -/
def wordWidth : Word → Nat
  | .byte => 1
  | .int16 => 2
  | .int32 => 4
  | .int64 => 8
  | .intPtr => m.handleSize

/-- The values that a word can hold. -/
def wordHolds : Word → Value → Bool
  | .byte, .int n => 0 ≤ n ∧ n < 256
  | .int16, .int n => -32768 ≤ n ∧ n < 32768
  | .int32, .int n => -2147483648 ≤ n ∧ n < 2147483648
  | .int64, .int n => -9223372036854775808 ≤ n ∧ n < 9223372036854775808
  | .intPtr, .handle _ => true
  | _, _ => false

def constant : Constant → Value
  | .null => .null
  | .zeroHandle => .handle none
  | .emptyString => .text []
  | .falseValue => .bool false
  | .zeroFloat => .single 0
  | .zeroDouble => .double 0
  | .zeroDecimal => .decimal 0
  | .zeroChar => .char 0
  | .sizeOfInt => .int 4
  | .sizeOfHandle => .int m.handleSize

/-- Whether a path names an enum, of either side. -/
def isEnum (path : String) : Bool :=
  match m.decls path with
  | some (.valueEnum _ _) | some (.transferEnum _ _) => true
  | _ => false

/-- A number, a character or a member, as the number that a cast starts from. -/
def ordinal? : Value → Option Int
  | .int n => some n
  | .char code => some code.toNat
  | .member _ n => some n
  | _ => none

/-- A cast to a type. Casts between integers keep the low bits. -/
def cast? (type : Ty) (v : Value) : Option Value :=
  match type with
  | .builtin .double =>
    match v with
    | .decimal q => some (.double (m.narrow q))
    | _ => none
  | .builtin .decimal =>
    match v with
    | .double bits => (m.widen bits).map .decimal
    | _ => none
  | .builtin .char => (ordinal? v).map fun n => .char (BitVec.ofInt 16 n)
  | .builtin b =>
    match b.range? with
    | some (least, size) => (ordinal? v).map fun n => .int (wrapTo least size n)
    | none => none
  | .named path =>
    if m.isEnum path then (ordinal? v).map fun n => .member path (wrapTo (-2147483648) 4294967296 n)
    else none
  | _ => none

/-- The call of a function that neither takes a place nor calls generated code. -/
def call? (f : Function) (arguments : List Value) (st : State) : Option (Value × State) :=
  match f, arguments with
  | .allocHGlobal, [.int bytes] =>
    if 0 ≤ bytes then
      let (a, memory) := st.memory.alloc (.buffer bytes fun _ => none)
      some (.handle (some a), { st with memory })
    else none
  | .stringToHGlobal encoding, [.text units] =>
    let (a, memory) := st.memory.alloc (.text encoding units)
    some (.handle (some a), { st with memory })
  | .ptrToString encoding, [.handle (some a)] =>
    (st.memory.text? a encoding).map fun units => (.text units, st)
  | .freeHGlobal, [.handle (some a)] =>
    (st.memory.free? a).map fun memory => (.null, { st with memory })
  | .freeHGlobal, [.handle none] => some (.null, st)
  | .write word, [.handle (some a), .int offset, v] =>
    if wordHolds word v then
      (st.memory.store? (a.add offset) ⟨.word word, m.wordWidth word, v⟩).map fun memory =>
        (.null, { st with memory })
    else none
  | .read word, [.handle (some a), .int offset] =>
    (st.memory.load? (a.add offset) (.word word)).map fun v => (v, st)
  | .structureToPtr, [.record path fields, .handle (some a), .bool false] =>
    (st.memory.store? a ⟨.structure path, m.structSize path, .record path fields⟩).map fun memory =>
      (.null, { st with memory })
  | .ptrToStructure (.named path), [.handle (some a)] =>
    (st.memory.load? a (.structure path)).map fun v => (v, st)
  | .sizeOf (.named path), [] => some (.int (m.structSize path), st)
  | .intPtrAdd, [.handle (some a), .int offset] => some (.handle (some (a.add offset)), st)
  | .mathMin, [.int a, .int b] => some (.int (min a b), st)
  | .singleToInt32Bits, [.single bits] => some (.int bits.toInt, st)
  | .int32BitsToSingle, [.int n] => some (.single (BitVec.ofInt 32 n), st)
  | .doubleToInt64Bits, [.double bits] => some (.int bits.toInt, st)
  | .int64BitsToDouble, [.int n] => some (.double (BitVec.ofInt 64 n), st)
  | _, _ => none

/-- The result of an operator whose operands have values. -/
def operate? (op : BinaryOp) (left right : Value) : Option Value :=
  match op, left, right with
  | .times, .int a, .int b => some (.int (int32 (a * b)))
  | .equal, a, b => (a.same? b).map .bool
  | .unequal, a, b => (a.same? b).map fun equal => .bool !equal
  | _, _, _ => none

/-- The call of a method on an object, with a transfer struct. What remains of the caller is its
release list, memory and wire. -/
def invoke? (lib : Library) (object : Value) (member : Member) (wrapper : Value) (st : State) :
    Option State :=
  match object with
  | .record path _ => lib.call path member { st with self := object, wrapper }
  | _ => none

/-- The state of a caller after a call that ended in `callee`. -/
def returning (caller callee : State) : State :=
  { callee with self := caller.self, wrapper := caller.wrapper }

/-- A new object. -/
def construct? (lib : Library) (type : Ty) (arguments : List Value) (st : State) :
    Option (Value × State) :=
  match type, arguments with
  | .list _, [] => some (.list [], st)
  | .list _, [.int capacity] => if 0 ≤ capacity then some (.list [], st) else none
  | .named path, [] =>
    match m.decls path with
    | some (.valueClass c) =>
      let blank := Value.record path fun name =>
        ((c.properties.find? (·.2 = name)).map fun p => lib.zero p.1).getD .null
      (lib.call path .constructor { st with self := blank, wrapper := .null }).map fun callee =>
        (callee.self, returning st callee)
    | some (.transferStruct _) => some (lib.zero type, st)
    | _ => none
  | _, _ => none

end Machine

/-- A new array, its elements `x`; one of several dimensions is nested. -/
def newArrayValue (x : Value) : (dims : List Nat) → Value
  | [] => x
  | d :: rest => .array (rest.length + 1) (List.replicate d (newArrayValue x rest))

/-- The number that a numeral spells. -/
def Expr.numeral? : Expr → Option Nat
  | .nat n => some n
  | _ => none

/-- The value that a call reads from the wire. It is there if the next item was written by the
matching call with the same arguments. -/
def State.read? (tag : WireTag) (form : WireForm) (arguments : List Nat) (st : State) :
    Option (Value × State) :=
  match st.wire with
  | [] => none
  | item :: rest =>
    if item.tag = tag ∧ item.form = form ∧ item.arguments = arguments then
      some (item.value, { st with wire := rest })
    else none

mutual

/-- The value of an expression. -/
def Expr.eval (m : Machine) (lib : Library) (env : Env) : Expr → State → Option (Value × State)
  | .var .toRelease, st => some (.list (st.released.map .handle), st)
  | .var name, st => (env.lookup name).map fun v => (v, st)
  | .field owner name, st => ((st.get owner).field? name).map fun v => (v, st)
  | .spelled _, _ => none
  | .nat n, st => (int32? n).map fun v => (v, st)
  | .constant c, st => some (m.constant c, st)
  | .paren inner, st => inner.eval m lib env st
  | .index base indices, st => do
    let (v, st) ← base.eval m lib env st
    let (indices, st) ← evalAll m lib env indices st
    let indices ← indices.mapM Value.index?
    (v.item? indices).map fun item => (item, st)
  | .listCount list, st => do
    let (v, st) ← list.eval m lib env st
    match v with
    | .list items => (int32? items.length).map fun v => (v, st)
    | _ => none
  | .arrayLength array, st => do
    let (v, st) ← array.eval m lib env st
    match v with
    | .array 1 items => (int32? items.length).map fun v => (v, st)
    | _ => none
  | .cast type operand, st => do
    let (v, st) ← operand.eval m lib env st
    (m.cast? type v).map fun v => (v, st)
  | .uncheckedCast type operand, st => do
    let (v, st) ← operand.eval m lib env st
    (m.cast? type v).map fun v => (v, st)
  | .binary .coalesce left right, st => do
    let (v, st) ← left.eval m lib env st
    match v with
    | .null => right.eval m lib env st
    | v => some (v, st)
  | .binary op left right, st => do
    let (a, st) ← left.eval m lib env st
    let (b, st) ← right.eval m lib env st
    (Machine.operate? op a b).map fun v => (v, st)
  | .sum terms, st => do
    let (values, st) ← evalAll m lib env terms st
    (Value.sum? 0 values).map fun v => (v, st)
  | .conditional condition whenTrue whenFalse, st => do
    let (v, st) ← condition.eval m lib env st
    match v with
    | .bool true => whenTrue.eval m lib env st
    | .bool false => whenFalse.eval m lib env st
    | _ => none
  | .byRef _, _ => none
  | .call f arguments, st => do
    let (values, st) ← evalAll m lib env arguments st
    m.call? f values st
  | .invoke (.var .reader) (.read tag form) arguments, st => do
    let arguments ← arguments.mapM Expr.numeral?
    st.read? tag form arguments
  | .invoke (.var .writer) (.write tag form) (value :: arguments), st => do
    let (v, st) ← value.eval m lib env st
    let arguments ← arguments.mapM Expr.numeral?
    some (.null, { st with wire := st.wire ++ [⟨tag, form, arguments, v⟩] })
  | .invoke _ _ _, _ => none
  | .defaultOf type, st => some (lib.zero type, st)
  | .newObject type arguments, st => do
    let (values, st) ← evalAll m lib env arguments st
    m.construct? lib type values st
  | .newArray element dims inner, st =>
    some (newArrayValue (if inner = 0 then lib.zero element else .null) dims, st)

/-- The values of expressions, from left to right. -/
def evalAll (m : Machine) (lib : Library) (env : Env) :
    List Expr → State → Option (List Value × State)
  | [], st => some ([], st)
  | e :: es, st => do
    let (v, st) ← e.eval m lib env st
    let (rest, st) ← evalAll m lib env es st
    some (v :: rest, st)

end

/-- The assignment of a value to a place. -/
def Expr.assign (m : Machine) (lib : Library) (x : Value) :
    Expr → Env → State → Option (Env × State)
  | .var name, env, st => (Env.assign? name x env).map fun changed => (changed, st)
  | .field owner name, env, st =>
    (Value.setField? name x (st.get owner)).map fun changed => (env, st.set owner changed)
  | .index base indices, env, st => do
    let (v, st) ← base.eval m lib env st
    let (indices, st) ← evalAll m lib env indices st
    let indices ← indices.mapM Value.index?
    let changed ← Value.setItem? x indices v
    base.assign m lib changed env st
  | _, _, _ => none

/-- A call as a statement. A place that a call changes is assigned after it. -/
def Expr.run (m : Machine) (lib : Library) (env : Env) (st : State) :
    Expr → Option (Env × State)
  | .invoke (.var .toRelease) .add [item] => do
    let (v, st) ← item.eval m lib env st
    match v with
    | .handle h => some (env, { st with released := st.released ++ [h] })
    | _ => none
  | .invoke (.var .toRelease) .clear [] => some (env, { st with released := [] })
  | .invoke list .add [item] => do
    let (v, st) ← list.eval m lib env st
    let (x, st) ← item.eval m lib env st
    match v with
    | .list items => list.assign m lib (.list (items ++ [x])) env st
    | _ => none
  | .invoke receiver .toNative [.byRef place, .var .toRelease] => do
    let (object, st) ← receiver.eval m lib env st
    let (wrapper, st) ← place.eval m lib env st
    let callee ← Machine.invoke? lib object .toNative wrapper st
    let (env, st) ← place.assign m lib callee.wrapper env (Machine.returning st callee)
    receiver.assign m lib callee.self env st
  | .invoke receiver .fromNative [native] => do
    let (object, st) ← receiver.eval m lib env st
    let (wrapper, st) ← native.eval m lib env st
    let callee ← Machine.invoke? lib object .fromNative wrapper st
    receiver.assign m lib callee.self env (Machine.returning st callee)
  | .call (.releaseNative (.named path)) [.byRef place, .var .toRelease] => do
    let (wrapper, st) ← place.eval m lib env st
    let callee ← lib.call path .releaseNative { st with self := .null, wrapper }
    place.assign m lib callee.wrapper env (Machine.returning st callee)
  | .call .arrayCopy [source, target, length] => do
    let (v, st) ← source.eval m lib env st
    let (w, st) ← target.eval m lib env st
    let (n, st) ← length.eval m lib env st
    match v, w, n.index? with
    | .array 1 items, .array 1 old, some n =>
      if n ≤ items.length ∧ n ≤ old.length then
        target.assign m lib (.array 1 (items.take n ++ old.drop n)) env st
      else none
    | _, _, _ => none
  | .call .arrayClear [array, start, length] => do
    let (v, st) ← array.eval m lib env st
    let (start, st) ← start.eval m lib env st
    let (length, st) ← length.eval m lib env st
    match v, start.index?, length.index? with
    | .array 1 items, some start, some length =>
      if start + length ≤ items.length then do
        let cleared ← ((items.drop start).take length).mapM Value.cleared?
        array.assign m lib
          (.array 1 (items.take start ++ cleared ++ items.drop (start + length))) env st
      else none
    | _, _, _ => none
  | other => do
    let (_, st) ← other.eval m lib env st
    some (env, st)

mutual

/-- A statement, from the local variables and the state before it to those after it. -/
def Stmt.exec (m : Machine) (lib : Library) : Stmt → Env → State → Option (Env × State)
  | .assign place value, env, st => do
    let (v, st) ← value.eval m lib env st
    place.assign m lib v env st
  | .declare _ name value, env, st => do
    let (v, st) ← value.eval m lib env st
    some ((name, v) :: env, st)
  | .run call, env, st => call.run m lib env st
  | .block body, env, st => do
    let (inner, st) ← execAll m lib body env st
    some (Env.leave env inner, st)
  | .countUp depth bound body, env, st => do
    let (v, st) ← bound.eval m lib env st
    let n ← v.int?
    (List.range n.toNat).foldlM (fun (before : Env × State) (i : Nat) => do
      let (inner, st) ← execAll m lib body ((.counter depth, .int i) :: before.1) before.2
      let env := Env.leave before.1 inner
      let (v, st) ← bound.eval m lib env st
      if v.int? = some n then some (env, st) else none) (env, st)
  | .when condition body, env, st => do
    let (v, st) ← condition.eval m lib env st
    match v with
    | .bool true =>
      let (inner, st) ← execAll m lib body env st
      some (Env.leave env inner, st)
    | .bool false => some (env, st)
    | _ => none
  | .forEach _ name (.var .toRelease) body, env, st =>
    st.released.foldlM (fun (before : Env × State) handle => do
      let (inner, next) ← execAll m lib body ((name, .handle handle) :: before.1) before.2
      if next.released = st.released then some (Env.leave before.1 inner, next) else none) (env, st)
  | .forEach _ _ _ _, _, _ => none

/-- Statements one after the other. -/
def execAll (m : Machine) (lib : Library) : List Stmt → Env → State → Option (Env × State)
  | [], env, st => some (env, st)
  | s :: rest, env, st => do
    let (env, st) ← s.exec m lib env st
    execAll m lib rest env st

end

namespace Machine

variable (m : Machine)

/-- The default value of a type. A reference is null; a transfer struct has default values in its
fields. -/
def zeroIn (inner : Library) : Ty → Value
  | .builtin b =>
    match b with
    | .float => .single 0
    | .double => .double 0
    | .decimal => .decimal 0
    | .bool => .bool false
    | .char => .char 0
    | _ => .int 0
  | .intPtr => .handle none
  | .named path =>
    match m.decls path with
    | some (.transferStruct s) =>
      .record path fun name => ((s.fields.find? (·.name = name)).map fun f => inner.zero f.type).getD
        .null
    | some (.valueEnum _ _) | some (.transferEnum _ _) => .member path 0
    | _ => .null
  | .string | .array _ _ | .listInterface _ | .list _ => .null

/-- What code can refer to when calls may still nest to a depth. -/
def library : (depth : Nat) → Library
  | 0 => ⟨fun _ => .null, fun _ _ _ => none⟩
  | depth + 1 =>
    { zero := m.zeroIn (library depth)
      call := fun path member st =>
        match m.decls path with
        | some (.valueClass c) =>
          (execAll m (library depth) (c.body member) [] st).map fun result => result.2
        | _ => none }

end Machine

end InteropGen.CSharp

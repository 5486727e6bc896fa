import InteropGen.Proofs.Transfer.Slots

/-!
# Elements on their way back

An element is read from a place of a transfer struct, or from the slot of a buffer by way of local
variables. Nothing but the object that is filled changes.

* `Reads` — the constructor and the `FromNative` of a struct, as its callers see them;
* `exec_elementFromNative`, `exec_loadFromSlot` — the two ways.
-/

set_option autoImplicit false

namespace InteropGen

open CSharp

/-- An object of the class of a struct, whatever its properties hold. -/
def IsObject (s : StructType) (v : Value) : Prop :=
  ∃ fields, v = .record s.name.dotted fields ∧
    ∀ name, name ∉ s.fields.map (·.name) → fields name = .null

section
variable (m : Machine) (t : Target) (lib : Library)

/-- Constructing an object of the struct always gives the same, and leaves no other trace. -/
def Constructs (s : StructType) : Prop :=
  ∃ object, IsObject s object ∧
    ∀ st, m.construct? lib (valueTypeOf s.name) [] st = some (object, st)

/-- Objects of the struct can be constructed, and are read from what represents them. -/
structure Reads (s : StructType) : Prop where
  construct : Constructs m lib s
  fromNative : ∀ object v native lo hi st, IsObject s object → Typed m t true (.struct s) v →
    Represents m t st.memory lo hi (.struct s) v native → st.self = object → st.wrapper = native →
    lib.call s.name.dotted .fromNative st = some { st with self := v }

/-- What an element needs of the declarations around it, to be read. -/
structure ElementReads (e : Element) : Prop where
  enum : ∀ en, e = .enum en → DeclaresEnum m t en
  struct : ∀ s, e = .struct s → Reads m t lib s

/-- The slot gives back the value. -/
inductive Slot.Returns : Slot → Value → Prop
  | integer (size : Expr) (word : Word) (coding : SlotCoding) (x : Value)
      (restores : coding.Restores m lib x) : Returns (.integer size word coding) x
  | transferStruct (path : String) (x : Value) : Returns (.transferStruct (.named path)) x

theorem eval_slotRead (slot : Slot) (x : Value) (returns : slot.Returns m lib x)
    (pointer offset : Expr) (b : Nat) (off : Int) (env : Env) (st : State)
    (hpointer : pointer.eval m lib env st = some (.handle (some ⟨b, 0⟩), st))
    (hoffset : offset.eval m lib env st = some (.int off, st))
    (hcell : st.memory.cell? ⟨b, off⟩ = some (slot.cell m (slot.stored m x))) :
    (slot.read pointer offset).eval m lib env st = some (x, st) := by
  have hadd : (Address.mk b 0).add off = ⟨b, off⟩ := by simp [Address.add]
  have hload := st.memory.load?_of_cell? _ _ hcell
  have harguments : evalAll m lib env [pointer, offset] st =
      some ([.handle (some ⟨b, 0⟩), .int off], st) :=
    evalAll_cons m lib _ _ env st st st _ _ hpointer
      (evalAll_cons m lib _ _ env st st st _ _ hoffset rfl)
  cases returns with
  | integer size word coding x restores =>
    simp only [Slot.cell, Slot.stored] at hload
    refine restores env _ st st (eval_call m lib _ _ env st st _ _ harguments ?_)
    simp [Machine.call?, hadd, hload]
  | transferStruct path x =>
    simp only [Slot.cell, Slot.stored] at hload
    have haddress : (Expr.call .intPtrAdd [pointer, offset]).eval m lib env st =
        some (.handle (some ⟨b, off⟩), st) := by
      refine eval_call m lib _ _ env st st _ _ harguments ?_
      simp [Machine.call?, hadd]
    refine eval_call m lib _ _ env st st [.handle (some ⟨b, off⟩)] _
      (evalAll_cons m lib _ _ env st st st _ _ haddress rfl) ?_
    simp [Machine.call?, hload]

variable {m t lib}

/-- The slot of an element gives back what was handed to it. -/
theorem slot_returns {e : Element} {v native : Value} {mem : Memory} {lo hi : Nat}
    (reads : ElementReads m t lib e) (typed : Typed m t true e.shape v)
    (rep : Represents m t mem lo hi e.shape v native) :
    (t.slot e).Returns m lib (e.staged v native) := by
  cases e with
  | primitive kind =>
    cases typed with
    | primitive _ _ holds keeps =>
      obtain ⟨size, word, coding, hslot, _, _⟩ :=
        primitiveSlot_stores m lib t.platform kind v holds
      have hrestores := primitiveSlot_restores m lib t.platform kind v holds (keeps rfl) size word
        coding hslot
      show (t.platform.primitiveSlot kind).Returns m lib v
      rw [hslot]
      exact .integer size word coding v hrestores
  | string kind => exact .integer _ _ _ _ (plain_restores m lib native)
  | enum en =>
    cases typed with
    | enum _ n hn =>
      exact .integer _ _ _ _ (enumSlot_restores m lib _ (reads.enum en rfl).1 n hn)
  | struct s => exact .transferStruct _ native

/-- The guard of a handle that is there. -/
theorem eval_isHandle (handle : Expr) (a : Address) (env : Env) (st : State)
    (hhandle : handle.eval m lib env st = some (.handle (some a), st)) :
    (isHandle handle).eval m lib env st = some (.bool true, st) := by
  simp [isHandle, Expr.eval, hhandle, Machine.constant, Machine.operate?, Value.same?]

theorem eval_stringFromNative (platform : Platform) (kind : StringKind) (handle : Expr) (b : Nat)
    (units : List (BitVec 16)) (env : Env) (st : State)
    (hhandle : handle.eval m lib env st = some (.handle (some ⟨b, 0⟩), st))
    (hblock : st.memory.blocks b = some (.text (platform.encoding kind) units)) :
    (platform.stringFromNative kind handle).eval m lib env st = some (.text units, st) := by
  have hguard := eval_isHandle handle ⟨b, 0⟩ env st hhandle
  have htext : (Expr.call (.ptrToString (platform.encoding kind)) [handle]).eval m lib env st =
      some (.text units, st) := by
    refine eval_call m lib _ _ env st st [.handle (some ⟨b, 0⟩)] _
      (evalAll_cons m lib _ _ env st st st _ _ hhandle rfl) ?_
    simp [Machine.call?, Memory.text?, hblock]
  unfold isHandle at hguard
  rw [Platform.stringFromNative, Expr.eval, hguard]
  exact htext

/-- Making an object in a place and reading it there. -/
theorem exec_readStruct (s : StructType) (reads : Reads m t lib s) (env : Env)
    (place native : Expr) (around : Value → Value) (hplace : PlaceAt m lib env place .value around)
    (v w x : Value) (st : State) (lo hi : Nat)
    (hnative : ∀ st', st'.wrapper = st.wrapper → native.eval m lib env st' = some (w, st'))
    (typed : Typed m t true (.struct s) v)
    (rep : Represents m t st.memory lo hi (.struct s) v w) (hself : st.self = around x) :
    execAll m lib (Target.readStruct s place native) env st = some (env, st.set .value (around v)) := by
  obtain ⟨object, hobject, hconstruct⟩ := reads.construct
  let st₁ := st.set .value (around object)
  have hnew : (Stmt.assign place (.newObject (valueTypeOf s.name) [])).exec m lib env st =
      some (env, st₁) := by
    refine exec_assign m lib _ _ object env env st st st₁ ?_ (hplace.assign st x object hself)
    simp [Expr.eval, evalAll, hconstruct]
  have hcall := reads.fromNative object v w lo hi { st₁ with self := object, wrapper := w } hobject
    typed rep rfl rfl
  obtain ⟨fields, hrecord, _⟩ := hobject
  have hread : (Stmt.run (.invoke place .fromNative [native])).exec m lib env st₁ =
      some (env, st.set .value (around v)) := by
    subst hrecord
    exact exec_run_fromNative m lib place native _ fields w env env st₁ _ _
      (hplace.eval st₁ _ rfl) (hnative st₁ rfl) hcall (hplace.assign st₁ _ v rfl)
  rw [Target.readStruct, execAll_cons m lib _ _ env env st st₁ hnew]
  exact execAll_cons m lib _ [] env env st₁ _ hread

/-- Reading one element from a place of the transfer struct. -/
theorem exec_elementFromNative (e : Element) (reads : ElementReads m t lib e) (env : Env)
    (place native : Expr) (around : Value → Value) (hplace : PlaceAt m lib env place .value around)
    (v w x : Value) (st : State) (lo hi : Nat)
    (hnative : ∀ st', st'.wrapper = st.wrapper → native.eval m lib env st' = some (w, st'))
    (typed : Typed m t true e.shape v) (rep : Represents m t st.memory lo hi e.shape v w)
    (hself : st.self = around x) :
    execAll m lib (t.elementFromNative e place native) env st =
      some (env, st.set .value (around v)) := by
  have hget := hnative st rfl
  have hassign := hplace.assign st x v hself
  cases e with
  | primitive kind =>
    cases typed with
    | primitive _ _ holds keeps =>
      cases rep with
      | primitive _ _ =>
        have hcast := eval_primitiveFromTransfer m lib t.platform kind v holds (keeps rfl) env native
          st st hget
        exact execAll_cons m lib _ [] env env st _ (exec_assign m lib place _ v env env st st _ hcast
          hassign)
  | string kind =>
    obtain ⟨units, b, rfl, rfl, hblock⟩ := rep.string_cases typed
    have htext := eval_stringFromNative t.platform kind native b units env st hget hblock
    exact execAll_cons m lib _ [] env env st _ (exec_assign m lib place _ _ env env st st _ htext
      hassign)
  | enum en =>
    cases typed with
    | enum _ n hn =>
      cases rep with
      | enum _ _ =>
        have hcast := enum_cast m _ (reads.enum en rfl).1
          (.member (en.name.dotted ++ t.transferSuffix) n) n rfl hn
        have hvalue : (enumFromTransfer en native).eval m lib env st =
            some (.member en.name.dotted n, st) := by
          simp [enumFromTransfer, valueTypeOf, Expr.eval, hget, hcast]
        exact execAll_cons m lib _ [] env env st _ (exec_assign m lib place _ _ env env st st _ hvalue
          hassign)
  | struct s =>
    exact exec_readStruct s (reads.struct s rfl) env place native around hplace v w x st lo hi hnative
      typed rep hself

/-- Loading an element from its slot, up to its use. -/
theorem exec_loadFromSlot (e : Element) (reads : ElementReads m t lib e) (env : Env)
    (buffer offset : Expr) (b off : Nat) (use : Expr → Stmt) (v native : Value) (st st' : State)
    (lo hi : Nat)
    (hbuffer : ∀ env', buffer.eval m lib env' st = some (.handle (some ⟨b, 0⟩), st))
    (hoffset : ∀ pre, Staging pre → Bound m lib (pre ++ env) offset (.int off))
    (typed : Typed m t true e.shape v) (rep : Represents m t st.memory lo hi e.shape v native)
    (hcell : st.memory.cell? ⟨b, (off : Nat)⟩ = some (t.cell m e v native))
    (huse : ∀ pre x, Staging pre → x.eval m lib (pre ++ env) st = some (v, st) →
      (use x).exec m lib (pre ++ env) st = some (pre ++ env, st')) :
    ∃ pre, execAll m lib (t.loadFromSlot e buffer offset use) env st = some (pre ++ env, st') := by
  have hread : ∀ pre, Staging pre → ((t.slot e).read buffer offset).eval m lib (pre ++ env) st =
      some (e.staged v native, st) := fun pre hpre =>
    eval_slotRead m lib (t.slot e) _ (slot_returns reads typed rep) buffer offset b off (pre ++ env)
      st (hbuffer _) (hoffset pre hpre st) hcell
  cases e with
  | primitive kind =>
    exact ⟨[], execAll_cons m lib _ [] env env st st' (huse [] _ .nil (hread [] .nil))⟩
  | enum en =>
    exact ⟨[], execAll_cons m lib _ [] env env st st' (huse [] _ .nil (hread [] .nil))⟩
  | string kind =>
    obtain ⟨units, b', rfl, rfl, hblock⟩ := rep.string_cases typed
    let h : Value := .handle (some ⟨b', 0⟩)
    have hdeclare := exec_declare m lib .intPtr .text _ h env st st (hread [] .nil)
    have htext := eval_stringFromNative t.platform kind (.var .text) b' units ((.text, h) :: env) st
      (bound_local m lib (by simp) rfl st) hblock
    refine ⟨[(.text, h)], ?_⟩
    show execAll m lib [_, _] env st = _
    rw [execAll_cons m lib _ _ env _ st st hdeclare]
    exact execAll_cons m lib _ [] _ _ st st' (huse _ _ (.text h) htext)
  | struct s =>
    have hreads := reads.struct s rfl
    obtain ⟨object, hobject, hconstruct⟩ := hreads.construct
    have hlocal : ∀ x, (Expr.var .element).eval m lib ((.element, x) :: env) st = some (x, st) :=
      fun x => bound_local m lib (by simp) rfl st
    have hdeclare : (Stmt.declare (valueTypeOf s.name) .element
        (.newObject (valueTypeOf s.name) [])).exec m lib env st =
        some ((.element, object) :: env, st) := by
      apply exec_declare
      simp [Expr.eval, evalAll, hconstruct]
    have hcall := hreads.fromNative object v native lo hi
      { st with self := object, wrapper := native } hobject typed rep rfl rfl
    obtain ⟨fields, rfl, _⟩ := hobject
    have hfill := exec_run_fromNative m lib (.var .element) _ _ fields native _
      ((.element, v) :: env) st _ st (hlocal _) (hread _ (.element _)) hcall rfl
    refine ⟨[(.element, v)], ?_⟩
    show execAll m lib [_, _, _] env st = _
    rw [execAll_cons m lib _ _ env _ st st hdeclare, execAll_cons m lib _ _ _ _ st st hfill]
    exact execAll_cons m lib _ [] _ _ st st' (huse _ _ (.element v) (hlocal v))

end

end InteropGen

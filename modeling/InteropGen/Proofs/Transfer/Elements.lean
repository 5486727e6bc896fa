import InteropGen.Proofs.Transfer.Cases
import InteropGen.Proofs.Transfer.Scalars

/-!
# One element on its way to the native side

An element is converted into a place of a transfer struct. Everything that was in native memory stays
as it is, the new blocks are exactly those entered in the release list, and what is left in the place
represents the value.

* `Marshals` — what every stretch of a conversion does to memory, release list and wire;
* `Converts` — the `ToNative` of a struct, as its callers see it;
* `Converts.exec_convertStruct` — a call of it, with the transfer struct in a variable or in a place;
* `exec_elementToNative` — one element of any kind.
-/

set_option autoImplicit false

namespace InteropGen

open CSharp

/-- The handles of the blocks with numbers from `lo` up to `hi`. -/
def handles (lo hi : Nat) : List (Option Address) :=
  (List.range' lo (hi - lo)).map fun b => some ⟨b, 0⟩

theorem handles_append {lo mid hi : Nat} (h : lo ≤ mid) (h' : mid ≤ hi) :
    handles lo mid ++ handles mid hi = handles lo hi := by
  have hsplit : List.range' lo (mid - lo) ++ List.range' mid (hi - mid) =
      List.range' lo (hi - lo) := by
    have hmid : mid = lo + 1 * (mid - lo) := by omega
    have hcount : hi - lo = (mid - lo) + (hi - mid) := by omega
    rw [hcount, ← List.range'_append, ← hmid]
  rw [handles, handles, ← List.map_append, hsplit, handles]

theorem handles_self (n : Nat) : handles n n = [] := by
  simp [handles]

theorem handles_succ (n : Nat) : handles n (n + 1) = [some ⟨n, 0⟩] := by
  simp [handles]

/-- A stretch of a conversion: native memory only grows, every new block is entered in the release
list, in order, and nothing is written to the wire. -/
structure Marshals (st st' : State) : Prop where
  memory : st.memory.Extends st'.memory
  released : st'.released = st.released ++ handles st.memory.next st'.memory.next
  wire : st'.wire = st.wire

namespace Marshals

theorem refl (st : State) : Marshals st st := by
  refine ⟨.refl st.memory, ?_, rfl⟩
  rw [handles_self, List.append_nil]

theorem trans {st st' st'' : State} (h : Marshals st st') (h' : Marshals st' st'') :
    Marshals st st'' where
  memory := h.memory.trans h'.memory
  released := by
    rw [h'.released, h.released, List.append_assoc,
      handles_append h.memory.next_le h'.memory.next_le]
  wire := h'.wire.trans h.wire

/-- The objects at hand do not matter. -/
theorem of_eq {st st' : State} (hmemory : st'.memory = st.memory)
    (hreleased : st'.released = st.released) (hwire : st'.wire = st.wire) : Marshals st st' := by
  refine ⟨?_, ?_, hwire⟩
  · rw [hmemory]
    exact .refl st.memory
  · rw [hmemory, hreleased, handles_self, List.append_nil]

/-- One allocation and its entry. -/
theorem alloc (st : State) (block : Block) (st' : State)
    (hmemory : st'.memory = (st.memory.alloc block).2)
    (hreleased : st'.released = st.released ++ [some ⟨st.memory.next, 0⟩])
    (hwire : st'.wire = st.wire) : Marshals st st' := by
  refine ⟨?_, ?_, hwire⟩
  · rw [hmemory]
    exact st.memory.extends_alloc block
  · rw [hmemory, hreleased, Memory.alloc_next, handles_succ]

end Marshals

section
variable (m : Machine) (t : Target) (lib : Library)

/-- The enums that an element or a field refers to are declared on both sides. -/
def DeclaresEnum (e : EnumType) : Prop :=
  m.isEnum e.name.dotted = true ∧ m.isEnum (e.name.dotted ++ t.transferSuffix) = true

/-- The conversion of a struct, as the struct's users see it. -/
structure Converts (s : StructType) : Prop where
  /-- A new transfer struct has nested transfer structs in place. -/
  fresh : Storage t (.struct s) (lib.zero (t.transferTypeOf s.name))
  create : ∀ st, m.construct? lib (t.transferTypeOf s.name) [] st =
    some (lib.zero (t.transferTypeOf s.name), st)
  toNative : ∀ strict v w st, Typed m t strict (.struct s) v → Storage t (.struct s) w →
    st.self = v → st.wrapper = w → ∃ native st',
      lib.call s.name.dotted .toNative st = some st' ∧ st'.self = v ∧ st'.wrapper = native ∧
        Marshals st st' ∧
        Represents m t st'.memory st.memory.next st'.memory.next (.struct s) v native

/-- What an element needs of the declarations around it, to be converted. -/
structure ElementConverts (e : Element) : Prop where
  enum : ∀ en, e = .enum en → DeclaresEnum m t en
  struct : ∀ s, e = .struct s → Converts m t lib s

variable {m t lib}

theorem eval_stringToNative (platform : Platform) (kind : StringKind) (value : Expr) (v : Value)
    (units : List (BitVec 16)) (hv : v = .text units ∨ v = .null ∧ units = []) (env : Env)
    (st : State) (hvalue : value.eval m lib env st = some (v, st)) :
    (platform.stringToNative kind value).eval m lib env st =
      some (.handle (some ⟨st.memory.next, 0⟩),
        { st with memory := (st.memory.alloc (.text (platform.encoding kind) units)).2 }) := by
  have hcoalesce : (Expr.binary .coalesce value (.constant .emptyString)).eval m lib env st =
      some (.text units, st) := by
    rcases hv with htext | ⟨hnull, hempty⟩
    · subst htext
      simp [Expr.eval, hvalue]
    · subst hnull hempty
      simp [Expr.eval, hvalue, Machine.constant]
  exact eval_call m lib _ _ env st st _ _ (evalAll_cons m lib _ _ env st st st _ _ hcoalesce rfl) rfl

/-- The conversion of a struct into a variable or a place. `after` says which local variables are there
once it is assigned, and `put` what becomes of the state. -/
theorem Converts.exec_convertStruct {s : StructType} (converts : Converts m t lib s) {strict : Bool}
    (value transfer : Expr) {env : Env} {around : Value → Value} (after : Value → Env)
    (put : Value → State → State) (hvalue : PlaceAt m lib env value .value around)
    (hafter : ∀ x, PlaceAt m lib (after x) value .value around) {v w : Value} {st : State}
    (typed : Typed m t strict (.struct s) v) (storage : Storage t (.struct s) w)
    (hself : st.self = around v) (htransfer : transfer.eval m lib env st = some (w, st))
    (hassign : ∀ x st', st'.wrapper = st.wrapper →
      transfer.assign m lib x env st' = some (after x, put x st'))
    (hput : ∀ x st', (put x st').self = st'.self) :
    ∃ native st', (Target.convertStruct value transfer).exec m lib env st =
        some (after native, put native st') ∧
      st'.self = st.self ∧ st'.wrapper = st.wrapper ∧ Marshals st st' ∧
      Represents m t st'.memory st.memory.next st'.memory.next (.struct s) v native := by
  obtain ⟨native, callee, hcall, hself', rfl, hmarshals, hrep⟩ :=
    converts.toNative strict v w { st with self := v, wrapper := w } typed storage rfl rfl
  let st' := Machine.returning st callee
  -- the object is put back as it was
  have hback : value.assign m lib callee.self (after callee.wrapper) (put callee.wrapper st') =
      some (after callee.wrapper, put callee.wrapper st') := by
    have hsame : (put callee.wrapper st').self = around v := (hput _ _).trans hself
    have hwritten := (hafter callee.wrapper).assign _ v v hsame
    rw [hself', hwritten, ← hsame]
    rfl
  cases typed with
  | struct _ fields _ _ =>
    have hrun := exec_run_toNative m lib value transfer _ fields w env _ _ st callee _ _
      (hvalue.eval st _ hself) htransfer hcall (hassign callee.wrapper st' rfl) hback
    exact ⟨callee.wrapper, st', hrun, rfl, rfl,
      ⟨hmarshals.memory, hmarshals.released, hmarshals.wire⟩, hrep⟩

/-- Converting one element into a place of the transfer struct. -/
theorem exec_elementToNative (strict : Bool) (e : Element) (converts : ElementConverts m t lib e)
    (env : Env) (value place : Expr) (valueAround placeAround : Value → Value)
    (hvalue : PlaceAt m lib env value .value valueAround)
    (hplace : PlaceAt m lib env place .transfer placeAround) (v w : Value) (st : State)
    (typed : Typed m t strict e.shape v) (storage : Storage t e.shape w)
    (hself : st.self = valueAround v) (hwrapper : st.wrapper = placeAround w) :
    ∃ native st', execAll m lib (t.elementToNative e value place) env st = some (env, st') ∧
      st'.self = st.self ∧ st'.wrapper = placeAround native ∧ Marshals st st' ∧
      Represents m t st'.memory st.memory.next st'.memory.next e.shape v native := by
  have hget := hvalue.eval st v hself
  cases e with
  | primitive kind =>
    cases typed with
    | primitive _ _ holds keeps =>
      have hcast := eval_primitiveToTransfer m lib t.platform kind v holds env value st st hget
      refine ⟨_, st.set .transfer (placeAround (t.platform.carried m kind v)), ?_, rfl, rfl,
        .of_eq rfl rfl rfl, .primitive kind v⟩
      exact execAll_cons m lib _ [] env env st _ (exec_assign m lib place _ _ env env st st _ hcast
        (hplace.assign st w _ hwrapper))
  | string kind =>
    obtain ⟨units, hv, _⟩ := typed.string_cases
    let copy := (st.memory.alloc (.text (t.platform.encoding kind) units)).2
    let h : Value := .handle (some ⟨st.memory.next, 0⟩)
    let st₁ : State := State.set { st with memory := copy } .transfer (placeAround h)
    let st₂ : State := { st₁ with released := st₁.released ++ [some ⟨st.memory.next, 0⟩] }
    have halloc := eval_stringToNative t.platform kind value v units hv env st hget
    have hassign : (Stmt.assign place (t.platform.stringToNative kind value)).exec m lib env st =
        some (env, st₁) :=
      exec_assign m lib place _ h env env st _ st₁ halloc (hplace.assign _ w h hwrapper)
    have hadd : (Stmt.run (.invoke (.var .toRelease) .add [place])).exec m lib env st₁ =
        some (env, st₂) :=
      exec_run_add m lib place _ env st₁ (hplace.eval st₁ h rfl)
    refine ⟨h, st₂, ?_, rfl, rfl, .alloc st _ st₂ rfl rfl rfl, ?_⟩
    · show execAll m lib (t.storeString kind place value) env st = some (env, st₂)
      rw [Target.storeString, execAll_cons m lib _ _ env env st st₁ hassign]
      exact execAll_cons m lib _ [] env env st₁ st₂ hadd
    · refine .text kind v units st.memory.next hv (Nat.le_refl _) (Nat.lt_succ_self _) ?_
      exact st.memory.alloc_blocks_next _
  | enum en =>
    cases typed with
    | enum _ n hn =>
      have hcast := enum_cast m _ (converts.enum en rfl).2 (.member en.name.dotted n) n rfl hn
      have hvalue : (t.enumToTransfer en value).eval m lib env st =
          some (.member (en.name.dotted ++ t.transferSuffix) n, st) := by
        simp [Target.enumToTransfer, Target.transferTypeOf, Expr.eval, hget, hcast]
      refine ⟨_, st.set .transfer (placeAround (.member (en.name.dotted ++ t.transferSuffix) n)), ?_,
        rfl, rfl, .of_eq rfl rfl rfl, .enum en n⟩
      exact execAll_cons m lib _ [] env env st _ (exec_assign m lib place _ _ env env st st _ hvalue
        (hplace.assign st w _ hwrapper))
  | struct s =>
    obtain ⟨native, st', hexec, hself', _, hmarshals, hrep⟩ :=
      (converts.struct s rfl).exec_convertStruct value place (fun _ => env)
        (fun x st' => st'.set .transfer (placeAround x)) hvalue (fun _ => hvalue) typed storage hself
        (hplace.eval st w hwrapper) (fun x st' h => hplace.assign st' w x (h.trans hwrapper))
        (fun _ _ => rfl)
    exact ⟨native, st'.set .transfer (placeAround native), execAll_cons m lib _ [] env env st _ hexec,
      hself', rfl, ⟨hmarshals.memory, hmarshals.released, hmarshals.wire⟩, hrep⟩

end

end InteropGen

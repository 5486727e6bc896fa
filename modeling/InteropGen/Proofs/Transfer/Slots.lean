import InteropGen.Proofs.Transfer.Elements

/-!
# Elements in slots

An element on its way into a slot of a buffer: it is staged in local variables if it has to be
converted first, and then stored at its offset.

* `bound_slotOffset`, `bound_sequenceOffset` — where the slots are, without overflow;
* `exec_slotWrite` — one slot, whatever it holds;
* `exec_storeInSlot` — staging and storing.
-/

set_option autoImplicit false

namespace InteropGen

open CSharp

/-- Local variables that staging declares. -/
def Staging (pre : Env) : Prop :=
  ∀ b ∈ pre, b.1 = .text ∨ b.1 = .element

theorem Staging.nil : Staging [] := by
  intro b hb
  cases hb

theorem Staging.text (x : Value) : Staging [(.text, x)] := by
  intro b hb
  rw [List.mem_singleton.mp hb]
  exact .inl rfl

theorem Staging.element (x : Value) : Staging [(.element, x)] := by
  intro b hb
  rw [List.mem_singleton.mp hb]
  exact .inr rfl

theorem Staging.lookup {pre : Env} (h : Staging pre) (env : Env) (name : Local)
    (htext : name ≠ .text) (helement : name ≠ .element) :
    (pre ++ env).lookup name = env.lookup name := by
  induction pre with
  | nil => rfl
  | cons b rest ih =>
    have hb := h b (by simp)
    have hne : (name == b.1) = false := by
      rw [beq_eq_false_iff_ne]
      intro heq
      rcases hb with hb | hb
      · exact htext (heq.trans hb)
      · exact helement (heq.trans hb)
    rw [List.cons_append, List.lookup_cons, hne]
    exact ih fun b hb => h b (by simp [hb])

theorem Staging.sameLocals {env env' pre : Env} (h : env.SameLocals env') (hpre : Staging pre)
    (name : Local) (hname : ∀ j, name ≠ .counter j) (htext : name ≠ .text)
    (helement : name ≠ .element) : (pre ++ env').lookup name = env.lookup name :=
  (hpre.lookup env' name htext helement).trans (h name hname)

theorem CSharp.Counting.staging {depth : Nat} {env pre : Env} {counters : List Expr} {idx : List Nat}
    (h : Counting depth env counters idx) (hpre : Staging pre) :
    Counting depth (pre ++ env) counters idx := by
  refine List.Forall₂.imp ?_ h
  intro e i hhead
  obtain ⟨j, hj, he, hlookup⟩ := hhead
  exact ⟨j, hj, he, (hpre.lookup env _ (by simp) (by simp)).trans hlookup⟩

section
variable (m : Machine) (lib : Library)

/-- The offset of a slot in the buffer of an array. -/
theorem bound_slotOffset {env env' pre : Env} {dims idx : List Nat} {counters : List Expr}
    {depth width : Nat} (valid : ValidDims dims) (hidx : InBounds dims idx)
    (hcounters : Counting depth env' counters idx) (hlocals : env.SameLocals env')
    (hsize : env.lookup .size = some (.int width)) (hfits : flat dims idx * width ≤ 2147483647)
    (hpre : Staging pre) :
    Bound m lib (pre ++ env') (slotOffset dims counters) (.int (flat dims idx * width : Nat)) := by
  refine bound_times m lib (bound_flatIndex m lib valid (hcounters.staging hpre) hidx)
    (bound_local m lib (by simp) ?_) hfits
  exact (Staging.sameLocals hlocals hpre .size (by simp) (by simp) (by simp)).trans hsize

/-- The offset of a slot in the buffer of a sequence, past the number of its elements. -/
theorem bound_sequenceOffset {env pre : Env} {depth i width : Nat}
    (hsize : env.lookup .size = some (.int width)) (hfits : 4 + i * width ≤ 2147483647)
    (hpre : Staging pre) :
    Bound m lib (pre ++ (.counter depth, .int i) :: env) (sequenceOffset (counter depth))
      (.int (4 + i * width : Nat)) := by
  refine bound_pastCount m lib (bound_times m lib (bound_counter m lib ?_)
    (bound_local m lib (by simp) ?_) (by omega)) hfits
  · rw [hpre.lookup _ _ (by simp) (by simp), List.lookup_cons, beq_self_eq_true]
  · rw [hpre.lookup _ _ (by simp) (by simp)]
    exact hsize

/-- A number of elements, cut to the bound of a sequence. -/
theorem eval_bounded {e : Expr} {n : Nat} {env : Env} {st : State} (maxBound : Nat)
    (hbound : maxBound ≤ 2147483647) (hcount : e.eval m lib env st = some (.int n, st)) :
    (bounded e maxBound).eval m lib env st = some (.int (cutTo maxBound n), st) := by
  unfold bounded cutTo
  by_cases hzero : maxBound = 0
  · rw [if_pos hzero, if_pos hzero]
    exact hcount
  · rw [if_neg hzero, if_neg hzero]
    refine eval_call m lib _ _ env st st [.int n, .int maxBound] _
      (evalAll_cons m lib _ _ env st st st _ _ hcount (evalAll_cons m lib _ _ env st st st _ _
        (bound_nat m lib env maxBound hbound st) rfl)) ?_
    simp only [Machine.call?, Option.some.injEq, Prod.mk.injEq, Value.int.injEq, and_true]
    omega

/-- The slot can store the value. -/
inductive Slot.Accepts : Slot → Value → Prop
  | integer (size : Expr) (word : Word) (coding : SlotCoding) (x : Value)
      (stores : coding.Stores m lib word x) : Accepts (.integer size word coding) x
  | transferStruct (path : String) (fields : String → Value) :
      Accepts (.transferStruct (.named path)) (.record path fields)

/-- A slot is written just where there is room for it. -/
theorem exec_slotWrite (slot : Slot) (x : Value) (accepts : slot.Accepts m lib x)
    (pointer offset value : Expr) (b : Nat) (off : Int) (env : Env) (st : State)
    (hpointer : pointer.eval m lib env st = some (.handle (some ⟨b, 0⟩), st))
    (hoffset : offset.eval m lib env st = some (.int off, st))
    (hvalue : value.eval m lib env st = some (x, st)) :
    (Stmt.run (slot.write pointer offset value)).exec m lib env st =
      (st.memory.store? ⟨b, off⟩ (slot.cell m (slot.stored m x))).map fun memory =>
        (env, { st with memory }) := by
  have hadd : (Address.mk b 0).add off = ⟨b, off⟩ := by simp [Address.add]
  cases accepts with
  | integer size word coding x stores =>
    have hcall : (Expr.call (.write word) [pointer, offset, coding.encode value]).eval m lib env st =
        (st.memory.store? ⟨b, off⟩ ⟨.word word, m.wordWidth word, coding.stored m x⟩).map fun memory =>
          (.null, { st with memory }) := by
      refine eval_call m lib _ _ env st st [.handle (some ⟨b, 0⟩), .int off, coding.stored m x] _ ?_ ?_
      · exact evalAll_cons m lib _ _ env st st st _ _ hpointer
          (evalAll_cons m lib _ _ env st st st _ _ hoffset
            (evalAll_cons m lib _ _ env st st st _ _ (stores.eval env value st st hvalue) rfl))
      · simp [Machine.call?, stores.fits, hadd]
    rw [Slot.write, exec_run_call_eq m lib _ _ env st (by simp) (by simp) (by simp), hcall,
      Option.map_map]
    rfl
  | transferStruct path fields =>
    have haddress : (Expr.call .intPtrAdd [pointer, offset]).eval m lib env st =
        some (.handle (some ⟨b, off⟩), st) := by
      refine eval_call m lib _ _ env st st [.handle (some ⟨b, 0⟩), .int off] _ ?_ ?_
      · exact evalAll_cons m lib _ _ env st st st _ _ hpointer
          (evalAll_cons m lib _ _ env st st st _ _ hoffset rfl)
      · simp [Machine.call?, hadd]
    have hcall : (Expr.call .structureToPtr
        [value, .call .intPtrAdd [pointer, offset], .constant .falseValue]).eval m lib env st =
        (st.memory.store? ⟨b, off⟩ ⟨.structure path, m.structSize path, .record path fields⟩).map
          fun memory => (.null, { st with memory }) := by
      refine eval_call m lib _ _ env st st
        [.record path fields, .handle (some ⟨b, off⟩), .bool false] _ ?_ rfl
      exact evalAll_cons m lib _ _ env st st st _ _ hvalue
        (evalAll_cons m lib _ _ env st st st _ _ haddress rfl)
    rw [Slot.write, exec_run_call_eq m lib _ _ env st (by simp) (by simp) (by simp), hcall,
      Option.map_map]
    rfl

/-- The size of a slot, as it is spelled. -/
theorem bound_slotSize (t : Target) (e : Element) (env : Env) :
    Bound m lib env (t.slot e).size (.int ((t.slot e).width m)) := by
  intro st
  have hone : int32? 1 = some (.int 1) := rfl
  have htwo : int32? 2 = some (.int 2) := rfl
  have hfour : int32? 4 = some (.int 4) := rfl
  have height : int32? 8 = some (.int 8) := rfl
  cases e with
  | primitive kind =>
    cases kind with
    | wchar =>
      cases hplatform : t.platform <;>
        simp [Target.slot, Platform.primitiveSlot, hplatform, Platform.widensChars, Slot.size,
          Slot.width, Machine.wordWidth, Expr.eval, htwo, hfour]
    | _ =>
      simp [Target.slot, Platform.primitiveSlot, Slot.size, Slot.width, Machine.wordWidth, Expr.eval,
        hone, htwo, hfour, height]
  | string kind => rfl
  | enum e => rfl
  | struct s => rfl

theorem slot_width_pos (t : Target) (e : Element) : 0 < (t.slot e).width m := by
  have hword : ∀ word, 0 < m.wordWidth word := by
    intro word
    cases word with
    | intPtr => exact m.handleSize_pos
    | _ => simp [Machine.wordWidth]
  cases hslot : t.slot e with
  | integer size word coding => exact hword word
  | transferStruct type =>
    cases e with
    | primitive kind =>
      cases kind <;> cases hplatform : t.platform <;>
        simp [Target.slot, Platform.primitiveSlot, hplatform, Platform.widensChars] at hslot
    | string kind => cases hslot
    | enum e => cases hslot
    | struct s =>
      cases hslot
      exact m.structSize_pos _

variable {m lib}

/-- What is handed to the slot of an element can be stored there. -/
theorem slot_accepts {t : Target} {strict : Bool} {e : Element} {v native : Value} {mem : Memory}
    {lo hi : Nat} (typed : Typed m t strict e.shape v)
    (rep : Represents m t mem lo hi e.shape v native) :
    (t.slot e).Accepts m lib (e.staged v native) := by
  cases e with
  | primitive kind =>
    cases typed with
    | primitive _ _ holds _ =>
      obtain ⟨size, word, coding, hslot, _, stores⟩ :=
        primitiveSlot_stores m lib t.platform kind v holds
      show (t.platform.primitiveSlot kind).Accepts m lib v
      rw [hslot]
      exact .integer size word coding v stores
  | string kind =>
    cases rep with
    | text _ _ units b _ _ _ _ => exact .integer _ _ _ _ (plain_stores m lib .intPtr _ rfl)
  | enum en =>
    cases typed with
    | enum _ n hn => exact .integer _ _ _ _ (enumSlot_stores m lib _ _ n hn)
  | struct s =>
    cases rep with
    | struct _ fields natives _ => exact .transferStruct _ natives

/-- The variable for a nested transfer struct starts as a new one. -/
theorem Converts.exec_declare {t : Target} {s : StructType} (converts : Converts m t lib s)
    (env : Env) (st : State) :
    (Stmt.declare (t.transferTypeOf s.name) .element
        (.newObject (t.transferTypeOf s.name) [])).exec m lib env st =
      some ((.element, lib.zero (t.transferTypeOf s.name)) :: env, st) := by
  apply CSharp.exec_declare
  simp only [Expr.eval, evalAll, Option.bind_eq_bind, Option.bind_some, converts.create]

/-- An element on its way to a slot, before it is stored. -/
theorem exec_stageToNative {t : Target} (strict : Bool) (e : Element)
    (converts : ElementConverts m t lib e) (env : Env) (value : Expr) (around : Value → Value)
    (hvalue : ∀ pre, Staging pre → PlaceAt m lib (pre ++ env) value .value around)
    (v : Value) (st : State) (typed : Typed m t strict e.shape v) (hself : st.self = around v) :
    ∃ pre native st', Staging pre ∧
      execAll m lib (t.stageToNative e value).1 env st = some (pre ++ env, st') ∧
      (t.stageToNative e value).2.eval m lib (pre ++ env) st' = some (e.staged v native, st') ∧
      st'.self = st.self ∧ st'.wrapper = st.wrapper ∧ Marshals st st' ∧
      Represents m t st'.memory st.memory.next st'.memory.next e.shape v native := by
  have hget := (hvalue [] .nil).eval st v hself
  cases e with
  | primitive kind =>
    exact ⟨[], _, st, .nil, rfl, hget, rfl, rfl, .refl st, .primitive kind v⟩
  | enum en =>
    cases typed with
    | enum _ n hn => exact ⟨[], _, st, .nil, rfl, hget, rfl, rfl, .refl st, .enum en n⟩
  | string kind =>
    obtain ⟨units, hv, _⟩ := typed.string_cases
    let copy := (st.memory.alloc (.text (t.platform.encoding kind) units)).2
    let h : Value := .handle (some ⟨st.memory.next, 0⟩)
    let st₁ : State := { st with memory := copy }
    let st₂ : State := { st₁ with released := st₁.released ++ [some ⟨st.memory.next, 0⟩] }
    have hdeclare := exec_declare m lib .intPtr .text _ h env st st₁
      (eval_stringToNative t.platform kind value v units hv env st hget)
    have hlocal : ∀ st, (Expr.var .text).eval m lib ((.text, h) :: env) st = some (h, st) :=
      bound_local m lib (by simp) rfl
    have hadd := exec_run_add m lib (.var .text) _ ((.text, h) :: env) st₁ (hlocal st₁)
    refine ⟨[(.text, h)], h, st₂, .text h, ?_, hlocal st₂, rfl, rfl, .alloc st _ st₂ rfl rfl rfl, ?_⟩
    · show execAll m lib [_, _] env st = _
      rw [execAll_cons m lib _ _ env _ st st₁ hdeclare]
      exact execAll_cons m lib _ [] _ _ st₁ st₂ hadd
    · refine .text kind v units st.memory.next hv (Nat.le_refl _) (Nat.lt_succ_self _) ?_
      exact st.memory.alloc_blocks_next _
  | struct s =>
    have hconverts := converts.struct s rfl
    let blank := lib.zero (t.transferTypeOf s.name)
    have hlocal : ∀ x st, (Expr.var .element).eval m lib ((.element, x) :: env) st = some (x, st) :=
      fun x => bound_local m lib (by simp) rfl
    have hplace : ∀ x, PlaceAt m lib ((.element, x) :: env) value .value around :=
      fun x => hvalue _ (.element x)
    have hdeclare := hconverts.exec_declare env st
    obtain ⟨native, st', hexec, hself', hwrapper', hmarshals, hrep⟩ :=
      hconverts.exec_convertStruct value (.var .element) (fun x => (.element, x) :: env)
        (fun _ st' => st') (hplace blank) hplace typed hconverts.fresh hself (hlocal blank st)
        (fun _ _ _ => rfl) (fun _ _ => rfl)
    refine ⟨[(.element, native)], native, st', .element native, ?_, hlocal native st', hself', hwrapper',
      hmarshals, hrep⟩
    show execAll m lib [_, _] env st = _
    rw [execAll_cons m lib _ _ env _ st st hdeclare]
    exact execAll_cons m lib _ [] _ _ st st' hexec

/-- The memory with a buffer's cells replaced. -/
def withCells (mem : Memory) (b : Nat) (size : Int) (cells : Int → Option Cell) : Memory :=
  { mem with blocks := Function.update mem.blocks b (some (.buffer size cells)) }

theorem withCells_same (mem : Memory) (b : Nat) (size : Int) (cells : Int → Option Cell) :
    (withCells mem b size cells).blocks b = some (.buffer size cells) :=
  Function.update_self ..

theorem withCells_apart (mem : Memory) {b b' : Nat} (h : b' ≠ b) (size : Int)
    (cells : Int → Option Cell) : (withCells mem b size cells).blocks b' = mem.blocks b' :=
  Function.update_of_ne h ..

/-- Staging an element and storing it in its slot. -/
theorem exec_storeInSlot {t : Target} (strict : Bool) (e : Element)
    (converts : ElementConverts m t lib e) (env : Env) (value : Expr) (around : Value → Value)
    (hvalue : ∀ pre, Staging pre → PlaceAt m lib (pre ++ env) value .value around)
    (v : Value) (st : State) (typed : Typed m t strict e.shape v) (hself : st.self = around v)
    (buffer offset : Expr) (b off : Nat) (size : Int) (cells : Int → Option Cell)
    (hbuffer : ∀ env' st', st'.wrapper = st.wrapper →
      buffer.eval m lib env' st' = some (.handle (some ⟨b, 0⟩), st'))
    (hoffset : ∀ pre, Staging pre → Bound m lib (pre ++ env) offset (.int off))
    (hb : b < st.memory.next) (hblock : st.memory.blocks b = some (.buffer size cells))
    (hfits : off + (t.slot e).width m ≤ size) :
    ∃ pre native st₁,
      execAll m lib (t.storeInSlot e buffer offset value) env st = some (pre ++ env,
        { st₁ with memory :=
            withCells st₁.memory b size (writeCell cells off (t.cell m e v native)) }) ∧
      st₁.self = st.self ∧ st₁.wrapper = st.wrapper ∧ Marshals st st₁ ∧
      Represents m t st₁.memory st.memory.next st₁.memory.next e.shape v native := by
  obtain ⟨pre, native, st₁, hpre, hstage, hstaged, hself₁, hwrapper₁, hmarshals, hrep⟩ :=
    exec_stageToNative strict e converts env value around hvalue v st typed hself
  have hblock₁ : st₁.memory.blocks b = some (.buffer size cells) :=
    (hmarshals.memory.same b (Nat.zero_le b) hb).trans hblock
  have hstore := st₁.memory.store?_eq ⟨b, off⟩ (t.cell m e v native) size cells hblock₁
    (Int.natCast_nonneg off) (by simpa [Target.cell] using hfits)
  have hwrite := exec_slotWrite m lib (t.slot e) (e.staged v native) (slot_accepts typed hrep) buffer
    offset _ b off (pre ++ env) st₁ (hbuffer _ st₁ hwrapper₁) (hoffset pre hpre st₁) hstaged
  have hcell : (t.slot e).cell m ((t.slot e).stored m (e.staged v native)) = t.cell m e v native := rfl
  rw [hcell, hstore] at hwrite
  refine ⟨pre, native, st₁, ?_, hself₁, hwrapper₁, hmarshals, hrep⟩
  have hstmts : t.storeInSlot e buffer offset value = (t.stageToNative e value).1 ++
      [.run ((t.slot e).write buffer offset (t.stageToNative e value).2)] := rfl
  rw [hstmts, execAll_append m lib _ _ env _ st st₁ hstage]
  exact execAll_cons m lib _ [] _ _ st₁ _ hwrite

end

end InteropGen

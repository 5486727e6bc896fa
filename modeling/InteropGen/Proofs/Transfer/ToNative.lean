import InteropGen.Proofs.Transfer.Buffers

/-!
# Value objects to transfer structs

The statements that `Target.toNative` writes for a field run to their end on every well-formed
value, and what they leave in the transfer struct represents it.

* `exec_copiedArray` — an array that is copied in one go;
* `Laid` — the invariant of the loops over an array inside its struct, which
  `Laid.exec_elementToNative` takes one element further;
* `exec_inlineArray`, `exec_outOfLineArray`, `exec_sequence` — the collections.
-/

set_option autoImplicit false

namespace InteropGen

open CSharp

section
variable {m : Machine} {t : Target} {lib : Library}

theorem storage_zero (e : Element) (converts : ElementConverts m t lib e) :
    Storage t e.shape (lib.zero (t.elementTransferType e)) := by
  cases e with
  | struct s => exact (converts.struct s rfl).fresh
  | _ => exact .other _ _ (by simp [Element.shape])

/-- An array that is copied in one go into a fresh one. -/
theorem exec_copiedArray {kind : PrimitiveKind} {d : Nat} (hdirect : t.platform.isDirect kind = true)
    (htransfer : (Element.primitive kind).transfer [d] = .inline [d].prod) (valid : ValidDims [d])
    (f : FieldView) (valueAround placeAround : Value → Value)
    (hvalue : PlaceAt m lib [] f.value .value valueAround)
    (hplace : PlaceAt m lib [] f.native .transfer placeAround) (g : List Nat → Value) (zero : Value)
    (st : State) (hself : st.self = valueAround (t.layout.arrayValue [d] g))
    (hwrapper : st.wrapper = placeAround (.array 1 (List.replicate [d].prod zero))) :
    ∃ native st',
      execAll m lib [.run (.call .arrayCopy [f.value, f.native, .nat [d].prod])] [] st =
        some ([], st') ∧
      st'.self = st.self ∧ st'.wrapper = placeAround native ∧ Marshals st st' ∧
      Represents m t st'.memory st.memory.next st'.memory.next
        (.array (Element.primitive kind).shape [d]) (t.layout.arrayValue [d] g) native := by
  let items := (List.range d).map fun i => g [i]
  have harray : t.layout.arrayValue [d] g = .array 1 items := by
    cases t.layout <;> rfl
  have hlength : items.length = [d].prod := by simp [items]
  let st' := st.set .transfer (placeAround (.array 1 items))
  have hcount : (Expr.nat [d].prod).eval m lib [] st = some (.int items.length, st) := by
    have hbound := valid.count_lt
    rw [hlength]
    exact bound_nat m lib [] _ (by omega) st
  rw [harray] at hself
  have hcopied := exec_run_arrayCopy m lib f.value f.native (.nat [d].prod) items
    (List.replicate [d].prod zero) [] st _ (by simp [hlength]) (hvalue.eval st _ hself)
    (hplace.eval st _ hwrapper) hcount (hplace.assign st _ _ hwrapper)
  refine ⟨.array 1 items, st', execAll_cons m lib _ [] [] [] st st' hcopied, rfl, rfl,
    .of_eq rfl rfl rfl, .inline (.primitive kind) [d] _ g items htransfer hlength ?_⟩
  intro idx native hidx hnative
  obtain ⟨i, inner, rfl, hi, hinner⟩ := hidx.cases_cons
  obtain rfl := hinner.eq_nil
  have hitem : native = g [i] := by
    simpa [items, flat, hi] using hnative.symm
  have hrep : Represents m t st'.memory st.memory.next st'.memory.next (.primitive kind) (g [i])
      (t.platform.carried m kind (g [i])) := .primitive kind (g [i])
  rw [carried_of_copiesDirectly m t.platform kind hdirect] at hrep
  rw [hitem]
  exact hrep

/-- An array in a transfer struct with its first `k` elements, and blanks after them. -/
structure Laid (m : Machine) (t : Target) (e : Element) (placeAround : Value → Value) (zero : Value)
    (dims : List Nat) (g : List Nat → Value) (st₀ : State) (k : Nat) (st : State) : Prop where
  self : st.self = st₀.self
  marshals : Marshals st₀ st
  natives : ∃ natives : List Value, natives.length = k ∧
    st.wrapper = placeAround (.array 1 (natives ++ List.replicate (dims.prod - k) zero)) ∧
    ∀ idx native, InBounds dims idx → natives[flat dims idx]? = some native →
      Represents m t st.memory st₀.memory.next st.memory.next e.shape (g idx) native

/-- The next element of the value, and the blank that it is converted into. -/
theorem Laid.next {e : Element} {dims idx : List Nat} {placeAround valueAround : Value → Value}
    {zero : Value} {g : List Nat → Value} {st₀ st : State}
    (laid : Laid m t e placeAround zero dims g st₀ (flat dims idx) st) (valid : ValidDims dims)
    (hidx : InBounds dims idx) (f : FieldView) {depth : Nat} {env : Env} {counters : List Expr}
    (hcounters : Counting depth env counters idx)
    (hvalue : PlaceAt m lib env f.value .value valueAround)
    (hplace : PlaceAt m lib env f.native .transfer placeAround)
    (hself : st₀.self = valueAround (t.layout.arrayValue dims g)) :
    ∃ (natives : List Value) (around : Value → Value), natives.length = flat dims idx ∧
      PlaceAt m lib env (t.layout.elementAt f.value counters) .value around ∧
      st.self = around (g idx) ∧
      PlaceAt m lib env (.index f.native [flatIndex dims counters]) .transfer (fun x =>
        placeAround (.array 1
          (natives ++ x :: List.replicate (dims.prod - (flat dims idx + 1)) zero))) ∧
      st.wrapper = placeAround (.array 1
        (natives ++ zero :: List.replicate (dims.prod - (flat dims idx + 1)) zero)) ∧
      ∀ idx native, InBounds dims idx → natives[flat dims idx]? = some native →
        Represents m t st.memory st₀.memory.next st.memory.next e.shape (g idx) native := by
  obtain ⟨natives, hnatives, hwrapper, hreps⟩ := laid.natives
  obtain ⟨around, harray, hitem⟩ := exists_placeAt_elementAt m lib t.layout valid hidx g
  have hposition := bound_flatIndex m lib valid hcounters hidx
  rw [← hnatives] at hposition
  have hlt := flat_lt hidx
  have hleft : dims.prod - flat dims idx = dims.prod - (flat dims idx + 1) + 1 := by omega
  rw [hleft, List.replicate_succ] at hwrapper
  exact ⟨natives, _, hnatives, hitem _ _ _ _ _ _ hvalue hcounters, by rw [laid.self, hself, ← harray],
    placeAt_index m lib hplace natives _ hposition, hwrapper, hreps⟩

/-- The next element is converted into its place. -/
theorem Laid.exec_elementToNative {strict : Bool} {e : Element} {dims idx : List Nat}
    {placeAround valueAround : Value → Value} {g : List Nat → Value} {st₀ st : State}
    (converts : ElementConverts m t lib e)
    (laid : Laid m t e placeAround (lib.zero (t.elementTransferType e)) dims g st₀ (flat dims idx) st)
    (valid : ValidDims dims) (hidx : InBounds dims idx) (typed : Typed m t strict e.shape (g idx))
    (f : FieldView) {depth : Nat} {env : Env} {counters : List Expr}
    (hcounters : Counting depth env counters idx)
    (hvalue : PlaceAt m lib env f.value .value valueAround)
    (hplace : PlaceAt m lib env f.native .transfer placeAround)
    (hself : st₀.self = valueAround (t.layout.arrayValue dims g)) :
    ∃ st', execAll m lib (t.elementToNative e (t.layout.elementAt f.value counters)
          (.index f.native [flatIndex dims counters])) env st = some (env, st') ∧
      Laid m t e placeAround (lib.zero (t.elementTransferType e)) dims g st₀ (flat dims idx + 1)
        st' := by
  obtain ⟨natives, around, hnatives, helement, hitem, hspot, hwrapper, hreps⟩ :=
    laid.next valid hidx f hcounters hvalue hplace hself
  obtain ⟨native, st', hexec, hself', hwrapped, hmarshals, hrep⟩ :=
    InteropGen.exec_elementToNative strict e converts env _ _ _ _ helement hspot (g idx) _ st typed
      (storage_zero e converts) hitem hwrapper
  refine ⟨st', hexec, hself'.trans laid.self, laid.marshals.trans hmarshals, natives ++ [native],
    by simp [hnatives], ?_, ?_⟩
  · rw [hwrapped, List.append_assoc, List.singleton_append]
  · intro idx' native' hidx' hnative'
    rcases getElem?_snoc_cases hnative' with hbefore | ⟨hlast, rfl⟩
    · exact (hreps idx' native' hidx' hbefore).extend hmarshals.memory
    · rw [flat_injective hidx' hidx (hlast.trans hnatives)]
      exact hrep.mono laid.marshals.memory.next_le (Nat.le_refl _) fun _ _ _ => rfl

/-- An array inside its transfer struct. -/
theorem exec_inlineArray (strict : Bool) (e : Element) (converts : ElementConverts m t lib e)
    (f : FieldView) (dims : List Nat) (length : Nat) (htransfer : e.transfer dims = .inline length)
    (valueAround placeAround : Value → Value)
    (hvalue : ∀ env, PlaceAt m lib env f.value .value valueAround)
    (hplace : ∀ env, PlaceAt m lib env f.native .transfer placeAround) (v w : Value) (depth : Nat)
    (st : State) (typed : Typed m t strict (.array e.shape dims) v)
    (hself : st.self = valueAround v) (hwrapper : st.wrapper = placeAround w) :
    ∃ native st', execAll m lib (t.inlineArrayToNative depth f e dims length) [] st =
        some ([], st') ∧
      st'.self = st.self ∧ st'.wrapper = placeAround native ∧ Marshals st st' ∧
      Represents m t st'.memory st.memory.next st'.memory.next (.array e.shape dims) v native := by
  obtain ⟨g, rfl, valid, _, helements⟩ := typed.array_cases
  obtain ⟨rfl, _⟩ := Element.transfer_eq_inline htransfer
  let zero := lib.zero (t.elementTransferType e)
  let blank : List Value := List.replicate dims.prod zero
  let st₁ := st.set .transfer (placeAround (.array 1 blank))
  have hfresh : (Stmt.assign f.native (.newArray (t.elementTransferType e) [dims.prod] 0)).exec
      m lib [] st = some ([], st₁) :=
    exec_assign m lib _ _ (.array 1 blank) [] [] st st st₁ rfl ((hplace []).assign st w _ hwrapper)
  have hassigned : Marshals st st₁ := .of_eq rfl rfl rfl
  unfold Target.inlineArrayToNative
  by_cases hcopy : (!multiDimensional dims && t.platform.copiesDirectly e) = true
  · rw [if_pos hcopy, execAll_cons m lib _ _ [] [] st st₁ hfresh]
    obtain ⟨d, kind, rfl, rfl, hdirect⟩ := copied_cases valid hcopy
    obtain ⟨native, st', hexec, hs, hwrapper', hmarshals, hrep⟩ := exec_copiedArray hdirect htransfer
      valid f valueAround placeAround (hvalue []) (hplace []) g zero st₁ hself rfl
    exact ⟨native, st', hexec, hs, hwrapper', hassigned.trans hmarshals, hrep⟩
  · rw [if_neg hcopy, execAll_cons m lib _ _ [] [] st st₁ hfresh]
    have hstart : Laid m t e placeAround zero dims g st 0 st₁ := by
      refine ⟨rfl, hassigned, [], rfl, rfl, ?_⟩
      intro idx native _ hnative
      simp at hnative
    have hbody : ∀ idx, InBounds dims idx → ∀ env' counters,
        Counting (depth + dims.length) env' counters idx → Env.SameLocals [] env' →
        ∀ s, Laid m t e placeAround zero dims g st (flat dims idx) s → ∃ pre s',
          execAll m lib (t.elementToNative e (t.layout.elementAt f.value counters)
            (.index f.native [flatIndex dims counters])) env' s = some (pre ++ env', s') ∧
          Laid m t e placeAround zero dims g st (flat dims idx + 1) s' := by
      intro idx hidx env' counters hcounters _ s laid
      obtain ⟨s', hexec, hlaid⟩ := laid.exec_elementToNative converts valid hidx (helements idx hidx) f
        hcounters (hvalue env') (hplace env') hself
      exact ⟨[], s', hexec, hlaid⟩
    obtain ⟨s', hexec, hs, hmarshals, natives, hnatives, hwrapper', hreps⟩ :=
      exec_loopNest m lib _ _ dims valid depth [] st₁ hbody hstart
    rw [Nat.sub_self, List.replicate_zero, List.append_nil] at hwrapper'
    exact ⟨.array 1 natives, s', hexec, hs, hwrapper', hmarshals,
      .inline e dims dims.prod g natives htransfer hnatives hreps⟩

/-- An array of structs behind a handle. -/
theorem exec_outOfLineArray (strict : Bool) (e : Element) (converts : ElementConverts m t lib e)
    (f : FieldView) (dims : List Nat) (length : Nat)
    (htransfer : e.transfer dims = .outOfLine length) (valueAround placeAround : Value → Value)
    (hvalue : ∀ env, PlaceAt m lib env f.value .value valueAround)
    (hplace : ∀ env, PlaceAt m lib env f.native .transfer placeAround) (v w : Value) (depth : Nat)
    (st : State) (typed : Typed m t strict (.array e.shape dims) v)
    (hself : st.self = valueAround v) (hwrapper : st.wrapper = placeAround w) :
    ∃ native st', execAll m lib (t.outOfLineArrayToNative depth f e dims length) [] st =
        some ([], st') ∧
      st'.self = st.self ∧ st'.wrapper = placeAround native ∧ Marshals st st' ∧
      Represents m t st'.memory st.memory.next st'.memory.next (.array e.shape dims) v native := by
  obtain ⟨g, rfl, valid, hfits, helements⟩ := typed.array_cases
  obtain ⟨rfl, _⟩ := Element.transfer_eq_outOfLine htransfer
  let b := st.memory.next
  let width := (t.slot e).width m
  have hbytes : width * dims.prod ≤ 2147483647 := hfits _ htransfer
  let env : Env := [(.size, .int width)]
  let h : Value := .handle (some ⟨b, 0⟩)
  have hsize : Bound m lib env (.var .size) (.int width) := bound_local m lib (by simp) rfl
  have hcount := valid.count_lt
  have hdeclare := exec_declare m lib (.builtin .int) .size _ _ [] st st
    (bound_slotSize m lib t e [] st)
  have hlength : Bound m lib env (.nat dims.prod) (.int dims.prod) :=
    bound_nat m lib env _ (by omega)
  have hallocate := exec_allocate f.native (.binary .times (.var .size) (.nat dims.prod))
    (width * dims.prod : Nat) (Int.natCast_nonneg _) env placeAround (hplace env) w st hwrapper
    (bound_times m lib hsize hlength hbytes)
  let Inv : Nat → State → Prop := fun k s =>
    Filled m t e st b (width * dims.prod : Nat) 0 (fun _ => none) ((rowMajor dims).map g) k s ∧
      s.wrapper = placeAround h
  have hbody : ∀ idx, InBounds dims idx → ∀ env' counters,
      Counting (depth + dims.length) env' counters idx → env.SameLocals env' →
      ∀ s, Inv (flat dims idx) s → ∃ pre s',
        execAll m lib (t.storeInSlot e f.native (slotOffset dims counters)
          (t.layout.elementAt f.value counters)) env' s = some (pre ++ env', s') ∧
        Inv (flat dims idx + 1) s' := by
    intro idx hidx env' counters hcounters hlocals s hinv
    obtain ⟨filled, hwrapper'⟩ := hinv
    obtain ⟨around, harray, hitem⟩ := exists_placeAt_elementAt m lib t.layout valid hidx g
    have hrow := row_end_le (p := width) (flat_lt hidx)
    have hcomm := Nat.mul_comm width dims.prod
    have hnext : ((rowMajor dims).map g)[flat dims idx]? = some (g idx) := by
      rw [List.getElem?_map, rowMajor_getElem_flat hidx, Option.map_some]
    obtain ⟨pre, s', hexec, hkept, hfilled⟩ := filled.exec_storeInSlot converts width rfl
      (fun _ _ hnone => by cases hnone) hnext (helements idx hidx)
      (fun pre hpre => hitem _ _ _ _ _ _ (hvalue (pre ++ env')) (hcounters.staging hpre))
      (by rw [filled.self, hself, ← harray])
      (fun env'' s' hs' => (hplace env'').eval s' h (hs'.trans hwrapper'))
      (fun pre hpre => by
        rw [Nat.zero_add]
        exact bound_slotOffset m lib valid hidx hcounters hlocals rfl (by omega) hpre)
      (by omega)
    exact ⟨pre, s', hexec, hfilled, hkept.trans hwrapper'⟩
  let st₁ : State := { st with
    wrapper := placeAround h
    released := st.released ++ [some ⟨b, 0⟩]
    memory := (st.memory.alloc (.buffer (width * dims.prod : Nat) fun _ => none)).2 }
  have hstart : Inv 0 st₁ := ⟨.start rfl rfl rfl rfl rfl rfl, rfl⟩
  obtain ⟨s', hexec, filled, hwrapper'⟩ :=
    exec_loopNest m lib Inv _ dims valid depth env st₁ hbody hstart
  have hblock : (Stmt.block (.declare (.builtin .int) .size (t.slot e).size ::
      allocate f.native (.binary .times (.var .size) (.nat dims.prod)) ++
      loopNest depth dims none fun indices =>
        t.storeInSlot e f.native (slotOffset dims indices)
          (t.layout.elementAt f.value indices))).exec m lib [] st = some ([], s') := by
    refine exec_block m lib _ [] env st s' ?_
    rw [List.cons_append, execAll_cons m lib _ _ [] env st st hdeclare,
      execAll_append m lib _ _ env env st st₁ hallocate, List.append_nil]
    exact hexec
  exact ⟨h, s', execAll_cons m lib _ [] [] [] st s' hblock, filled.self, hwrapper',
    filled.marshals, filled.outOfLine htransfer⟩

/-- The number of elements that a sequence is cut to. -/
theorem eval_count (f : FieldView) (maxBound : Nat) (hbound : maxBound ≤ 2147483647)
    (valueAround : Value → Value) (env : Env)
    (hvalue : PlaceAt m lib env f.value .value valueAround) (v : Value) (items : List Value)
    (hv : v = .list items ∨ v = .null ∧ items = []) (hcount : items.length ≤ 2147483647)
    (st : State) (hself : st.self = valueAround v) :
    (Expr.conditional (.binary .equal f.value (.constant .null)) (.nat 0)
      (bounded (.listCount f.value) maxBound)).eval m lib env st =
        some (.int (cutTo maxBound items.length), st) := by
  have hget := hvalue.eval st v hself
  rcases hv with rfl | ⟨rfl, rfl⟩
  · have hlength : (Expr.listCount f.value).eval m lib env st = some (.int items.length, st) := by
      have hfits : InInt32 (items.length : Int) := by
        unfold InInt32
        omega
      simp [Expr.eval, hget, hfits]
    have hbounded := eval_bounded m lib maxBound hbound hlength
    simp [Expr.eval, hget, Machine.constant, Machine.operate?, Value.same?, hbounded]
  · have hzero : InInt32 0 := by decide
    rw [List.length_nil, cutTo_zero]
    simp [Expr.eval, hget, Machine.constant, Machine.operate?, Value.same?, hzero]

/-- The next item of a list, in the round of a loop over it. -/
theorem placeAt_nextItem {f : FieldView} {valueAround : Value → Value}
    (hvalue : ∀ env, PlaceAt m lib env f.value .value valueAround) {items : List Value} {i : Nat}
    (hi : i < items.length) (depth : Nat) (env : Env) (pre : Env) (hpre : Staging pre) :
    PlaceAt m lib (pre ++ (.counter depth, .int i) :: env) (.index f.value [counter depth]) .value
      fun x => valueAround (.list (items.take i ++ x :: items.drop (i + 1))) := by
  have hbefore : (items.take i).length = i := by
    rw [List.length_take]
    omega
  refine placeAt_listItem m lib (hvalue _) _ _ ?_
  rw [hbefore]
  refine bound_counter m lib ?_
  rw [hpre.lookup _ _ (by simp) (by simp), List.lookup_cons, beq_self_eq_true]

/-- A sequence behind a handle: the number of elements, and the elements after it. -/
theorem exec_sequence (strict : Bool) (e : Element) (converts : ElementConverts m t lib e)
    (f : FieldView) (maxBound : Nat) (hbound : maxBound ≤ 2147483647)
    (valueAround placeAround : Value → Value)
    (hvalue : ∀ env, PlaceAt m lib env f.value .value valueAround)
    (hplace : ∀ env, PlaceAt m lib env f.native .transfer placeAround) (v w : Value) (depth : Nat)
    (st : State) (typed : Typed m t strict (.sequence e.shape maxBound) v)
    (hself : st.self = valueAround v) (hwrapper : st.wrapper = placeAround w) :
    ∃ native st', execAll m lib (t.sequenceToNative depth f e maxBound) [] st = some ([], st') ∧
      st'.self = st.self ∧ st'.wrapper = placeAround native ∧ Marshals st st' ∧
      Represents m t st'.memory st.memory.next st'.memory.next (.sequence e.shape maxBound) v
        native := by
  obtain ⟨items, hv, _, hcount, hfits, hitems⟩ := typed.sequence_cases
  let b := st.memory.next
  let width := (t.slot e).width m
  let n := cutTo maxBound items.length
  have hn : n ≤ items.length := cutTo_le maxBound items.length
  change 4 + n * width ≤ 2147483647 at hfits
  let env : Env := [(.size, .int width), (.count, .int n)]
  let h : Value := .handle (some ⟨b, 0⟩)
  have hdeclareCount := exec_declare m lib (.builtin .int) .count _ _ [] st st
    (eval_count f maxBound hbound valueAround [] (hvalue []) v items hv hcount st hself)
  have hdeclareSize := exec_declare m lib (.builtin .int) .size _ _ [(.count, .int n)] st st
    (bound_slotSize m lib t e _ st)
  have hbytes : Bound m lib env
      (.sum [.constant .sizeOfInt, .binary .times (.var .count) (.var .size)])
      (.int (4 + n * width : Nat)) :=
    bound_pastCount m lib (bound_times m lib (bound_local m lib (by simp) rfl)
      (bound_local m lib (by simp) rfl) (by omega)) hfits
  obtain ⟨st₁, hallocate, hwrapper₁, hfilled⟩ := exec_allocateSequence t e items f.native _ env
    placeAround (hplace env) w st hwrapper n _ rfl (by omega) hbytes (by omega)
  let Inv : Nat → State → Prop := fun k s =>
    Filled m t e st b (4 + n * width : Nat) 4 (countCells n) items k s ∧ s.wrapper = placeAround h
  have hbody : ∀ i < n, ∀ s, Inv i s → ∃ pre s',
      execAll m lib (t.storeInSlot e f.native (sequenceOffset (counter depth))
        (.index f.value [counter depth])) ((.counter depth, .int i) :: env) s =
          some (pre ++ (.counter depth, .int i) :: env, s') ∧ Inv (i + 1) s' := by
    intro i hi s hinv
    obtain ⟨filled, hwrapper'⟩ := hinv
    have hlt : i < items.length := by omega
    have hitem : items[i]? = some items[i] := List.getElem?_eq_getElem hlt
    -- the list is not null, because it has an element
    have hlist : v = .list items := by
      rcases hv with hv | ⟨_, hempty⟩
      · exact hv
      · subst hempty
        simp at hn
        omega
    have hend := row_end_le (p := width) hi
    obtain ⟨pre, s', hexec, hkept, hfilled⟩ := filled.exec_storeInSlot converts width rfl
      (countCells_inside n) hitem (hitems _ (List.getElem_mem _))
      (placeAt_nextItem hvalue hlt depth env)
      (by
        rw [filled.self, hself, hlist]
        exact congrArg (fun l => valueAround (.list l)) (list_around items i _ hitem))
      (fun env' s' hs' => (hplace env').eval s' h (hs'.trans hwrapper'))
      (fun pre hpre => bound_sequenceOffset m lib rfl (by omega) hpre) (by omega)
    exact ⟨pre, s', hexec, hfilled, hkept.trans hwrapper'⟩
  obtain ⟨s', hexec, filled, hwrapper'⟩ :=
    exec_countUp m lib Inv depth n (.var .count) _ env st₁ (bound_local m lib (by simp) rfl) hbody
      ⟨hfilled, hwrapper₁⟩
  have hblock : execAll m lib (t.sequenceToNative depth f e maxBound) [] st = some ([], s') := by
    refine execAll_cons m lib _ [] [] [] st s' (exec_block m lib _ [] env st s' ?_)
    rw [List.append_assoc, List.append_assoc, ← List.append_assoc (allocate _ _), List.cons_append,
      List.singleton_append, execAll_cons m lib _ _ [] _ st st hdeclareCount,
      execAll_cons m lib _ _ _ env st st hdeclareSize, execAll_append m lib _ _ env env st st₁ hallocate]
    exact execAll_cons m lib _ [] env env st₁ s' hexec
  exact ⟨h, s', hblock, filled.self, hwrapper', filled.marshals, filled.sequence hv⟩

end

end InteropGen

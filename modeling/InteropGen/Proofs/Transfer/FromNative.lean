import InteropGen.Proofs.Transfer.Loads

/-!
# Transfer structs to value objects

The statements that `Target.fromNative` writes for a field run to their end on whatever represents a
value, and leave that value in the object. Nothing else changes.

* `exec_readCopiedArray`, `exec_freshRows` — an array that is copied in one go, and the rows that are
  there before the elements of any other are read;
* `exec_readInlineArray`, `exec_readOutOfLineArray`, `exec_readSequence` — the collections; an element
  by itself is `exec_elementFromNative`.
-/

set_option autoImplicit false

namespace InteropGen

open CSharp

section
variable {m : Machine} {t : Target} {lib : Library}

/-- An array copied in one go is the array that it is copied from. -/
theorem carried_items {kind : PrimitiveKind} {d : Nat} {g : List Nat → Value}
    {natives : List Value} {mem : Memory} {lo hi : Nat} (hdirect : t.platform.isDirect kind = true)
    (hlength : natives.length = [d].prod)
    (hitems : ∀ idx, InBounds [d] idx → ∃ item, natives[flat [d] idx]? = some item ∧
      Typed m t true (.primitive kind) (g idx) ∧
        Represents m t mem lo hi (.primitive kind) (g idx) item) :
    t.layout.arrayValue [d] g = .array 1 natives := by
  have hnatives : ((List.range d).map fun i => g [i]) = natives := by
    apply List.ext_getElem?
    intro i
    by_cases hi : i < d
    · obtain ⟨item, hitem, _, hrep⟩ := hitems [i] (inBounds_cons.mpr ⟨hi, .nil⟩)
      have hposition : flat [d] [i] = i := by simp [flat]
      rw [hposition] at hitem
      cases hrep with
      | primitive _ _ =>
        rw [carried_of_copiesDirectly m t.platform kind hdirect] at hitem
        simp [hitem, hi]
    · have hlast : natives[i]? = none := by
        rw [List.getElem?_eq_none_iff, hlength]
        simp
        omega
      simp [hlast, hi]
  cases hlayout : t.layout <;> exact congrArg (Value.array 1) hnatives

/-- An array is copied in one go into a fresh one. -/
theorem exec_readCopiedArray {kind : PrimitiveKind} {d : Nat} {g : List Nat → Value}
    {natives : List Value} {lo hi : Nat} {st : State} (hdirect : t.platform.isDirect kind = true)
    (valid : ValidDims [d]) (hlength : natives.length = [d].prod)
    (hitems : ∀ idx, InBounds [d] idx → ∃ item, natives[flat [d] idx]? = some item ∧
      Typed m t true (.primitive kind) (g idx) ∧
        Represents m t st.memory lo hi (.primitive kind) (g idx) item)
    (f : FieldView) (around : Value → Value) (hvalue : PlaceAt m lib [] f.value .value around)
    (zero : Value)
    (hnative : ∀ st', st'.wrapper = st.wrapper →
      f.native.eval m lib [] st' = some (.array 1 natives, st')) :
    execAll m lib [.run (.call .arrayCopy [f.native, f.value, .nat [d].prod])] []
        (st.set .value (around (t.layout.freshArray zero [d]))) =
      some ([], st.set .value (around (t.layout.arrayValue [d] g))) := by
  let st₁ := st.set .value (around (t.layout.freshArray zero [d]))
  have hfresh : t.layout.freshArray zero [d] = .array 1 (List.replicate d zero) := by
    cases t.layout <;> simp [Layout.freshArray, rowStart, Layout.levelRank, Layout.arrayValue]
  have hbound := valid.count_lt
  have hcount : (Expr.nat [d].prod).eval m lib [] st₁ = some (.int natives.length, st₁) := by
    rw [hlength]
    exact bound_nat m lib [] _ (by omega) st₁
  have hcopied := exec_run_arrayCopy m lib f.native f.value (.nat [d].prod) natives
    (List.replicate d zero) [] st₁ _ (by simp [hlength]) (hnative st₁ rfl)
    (hvalue.eval st₁ _ (by rw [← hfresh]; rfl)) hcount
    (hvalue.assign st₁ _ (.array 1 natives) rfl)
  rw [carried_items hdirect hlength hitems]
  exact execAll_cons m lib _ [] [] [] st₁ _ hcopied

/-- An array inside its transfer struct. -/
theorem exec_readInlineArray (e : Element) (reads : ElementReads m t lib e) (f : FieldView)
    (dims : List Nat) (length : Nat) (htransfer : e.transfer dims = .inline length)
    (around : Value → Value) (hvalue : ∀ env, PlaceAt m lib env f.value .value around)
    (v w x : Value) (depth : Nat) (st : State) (lo hi : Nat)
    (hnative : ∀ env st', st'.wrapper = st.wrapper →
      f.native.eval m lib env st' = some (w, st'))
    (typed : Typed m t true (.array e.shape dims) v)
    (rep : Represents m t st.memory lo hi (.array e.shape dims) v w) (hself : st.self = around x) :
    execAll m lib (.assign f.value (t.layout.arrayAllocation e.valueType dims) ::
      t.inlineArrayFromNative depth f e dims length) [] st =
      some ([], st.set .value (around v)) := by
  obtain ⟨g, natives, rfl, rfl, valid, hnatives, hitems⟩ := rep.inline_cases htransfer typed
  obtain ⟨rfl, _⟩ := Element.transfer_eq_inline htransfer
  let zero := lib.zero e.valueType
  have hfresh := exec_freshArray m lib t.layout (hvalue []) e.valueType valid.nonempty hself
  rw [execAll_cons m lib _ _ [] [] st _ hfresh]
  unfold Target.inlineArrayFromNative
  by_cases hcopy : (!multiDimensional dims && t.platform.copiesDirectly e) = true
  · rw [if_pos hcopy]
    obtain ⟨d, kind, rfl, rfl, hdirect⟩ := copied_cases valid hcopy
    exact exec_readCopiedArray hdirect valid hnatives hitems f around (hvalue []) zero (hnative [])
  · rw [if_neg hcopy]
    refine exec_fill m lib t.layout f.value around hvalue e.valueType dims valid depth [] (fun _ => st)
      g _ ?_
    intro idx hidx env' counters root hcounters _ place
    obtain ⟨item, hitem, htyped, hrep⟩ := hitems idx hidx
    have hposition := bound_flatIndex m lib valid hcounters hidx
    let before := st.set .value (root zero)
    have hread : ∀ st', st'.wrapper = before.wrapper →
        (Expr.index f.native [flatIndex dims counters]).eval m lib env' st' = some (item, st') :=
      fun st' hst' => eval_item m lib (hnative env' st' hst') hposition hitem
    exact ⟨[], exec_elementFromNative e reads env' _ _ root (place env' hcounters) (g idx) item zero
      before lo hi hread htyped hrep rfl⟩

/-- What precedes the elements of an array behind a handle: a fresh array with all of its rows. -/
theorem exec_freshRows (e : Element) (f : FieldView) (dims : List Nat) (valid : ValidDims dims)
    (around : Value → Value) (hvalue : ∀ env, PlaceAt m lib env f.value .value around) (x : Value)
    (depth : Nat) (st : State) (hself : st.self = around x) (rest : List Stmt) :
    execAll m lib (.assign f.value (t.layout.arrayAllocation e.valueType dims) ::
      ((t.layout.rows? f.value e.valueType dims).elim [] (allRows depth) ++ rest)) [] st =
      execAll m lib rest []
        (st.set .value (around (t.layout.arrayValue dims fun _ => lib.zero e.valueType))) := by
  have hfresh := exec_freshArray m lib t.layout (hvalue []) e.valueType valid.nonempty hself
  have hrows := exec_rows m lib t.layout f.value around hvalue e.valueType dims valid depth [] st
  rw [execAll_cons m lib _ _ [] [] st _ hfresh, execAll_append m lib _ _ [] [] _ _ hrows]

/-- An array behind a handle. -/
theorem exec_readOutOfLineArray (e : Element) (reads : ElementReads m t lib e) (f : FieldView)
    (dims : List Nat) (length : Nat) (htransfer : e.transfer dims = .outOfLine length)
    (around : Value → Value) (hvalue : ∀ env, PlaceAt m lib env f.value .value around)
    (v w x : Value) (depth : Nat) (st : State) (lo hi : Nat)
    (hnative : ∀ env st', st'.wrapper = st.wrapper →
      f.native.eval m lib env st' = some (w, st'))
    (typed : Typed m t true (.array e.shape dims) v)
    (rep : Represents m t st.memory lo hi (.array e.shape dims) v w) (hself : st.self = around x) :
    execAll m lib (.assign f.value (t.layout.arrayAllocation e.valueType dims) ::
      t.outOfLineArrayFromNative depth f e dims) [] st =
      some ([], st.set .value (around v)) := by
  obtain ⟨g, b, rfl, rfl, valid, hsize, hitems⟩ := rep.outOfLine_cases htransfer typed
  let zero := lib.zero e.valueType
  let width := (t.slot e).width m
  change width * dims.prod ≤ 2147483647 at hsize
  let st₁ := st.set .value (around (t.layout.arrayValue dims fun _ => zero))
  have hdeclare := exec_declare m lib (.builtin .int) .size _ _ [] st₁ st₁
    (bound_slotSize m lib t e [] st₁)
  let env : Env := [(.size, .int width)]
  have hfill := exec_fillRows m lib t.layout f.value around hvalue dims valid depth env (fun _ => st)
    zero g (fun indices => t.loadFromSlot e f.native (slotOffset dims indices) fun staged =>
      .assign (t.layout.elementAt f.value indices) staged) (by
    intro idx hidx env' counters root hcounters hlocals place
    obtain ⟨item, hcell, htyped, hrep⟩ := hitems idx hidx
    have hend := row_end_le (p := width) (flat_lt hidx)
    have hcomm := Nat.mul_comm width dims.prod
    let before := st.set .value (root zero)
    refine exec_loadFromSlot e reads env' f.native _ b (flat dims idx * width) _ (g idx) item before
      _ lo hi (fun env'' => hnative env'' before rfl)
      (fun pre hpre => bound_slotOffset m lib valid hidx hcounters hlocals rfl (by omega) hpre) htyped
      hrep hcell ?_
    intro pre staged hpre hstaged
    exact exec_assign m lib _ staged _ _ _ before before _ hstaged
      ((place _ (hcounters.staging hpre)).assign before zero _ rfl))
  have hwhen := exec_when_true m lib (isHandle f.native) _ [] env st₁ _
    (eval_isHandle f.native _ [] st₁ (hnative [] st₁ rfl))
    ((execAll_cons m lib _ _ [] env st₁ st₁ hdeclare).trans hfill)
  rw [Target.outOfLineArrayFromNative,
    exec_freshRows e f dims valid around hvalue x depth st hself]
  exact execAll_cons m lib _ [] [] [] st₁ _ hwhen

/-- An array behind a null handle is allocated and left at that. -/
theorem exec_readNullArray (e : Element) (f : FieldView) (dims : List Nat) (valid : ValidDims dims)
    (around : Value → Value) (hvalue : ∀ env, PlaceAt m lib env f.value .value around) (x : Value)
    (depth : Nat) (st : State)
    (hnative : ∀ env st', st'.wrapper = st.wrapper →
      f.native.eval m lib env st' = some (.handle none, st'))
    (hself : st.self = around x) :
    execAll m lib (.assign f.value (t.layout.arrayAllocation e.valueType dims) ::
      t.outOfLineArrayFromNative depth f e dims) [] st =
      some ([], st.set .value (around (t.layout.arrayValue dims fun _ => lib.zero e.valueType))) := by
  let st₁ := st.set .value (around (t.layout.arrayValue dims fun _ => lib.zero e.valueType))
  have hnull : (isHandle f.native).eval m lib [] st₁ = some (.bool false, st₁) := by
    simp [isHandle, Expr.eval, hnative [] st₁ rfl, Machine.constant, Machine.operate?, Value.same?]
  rw [Target.outOfLineArrayFromNative,
    exec_freshRows e f dims valid around hvalue x depth st hself]
  exact execAll_cons m lib _ [] [] [] st₁ _ (exec_when_false m lib _ _ [] st₁ hnull)

/-- A sequence behind a handle. -/
theorem exec_readSequence (e : Element) (reads : ElementReads m t lib e) (f : FieldView)
    (maxBound : Nat) (hmax : maxBound ≤ 2147483647) (around : Value → Value)
    (hvalue : ∀ env, PlaceAt m lib env f.value .value around) (v w x : Value) (depth : Nat)
    (st : State) (lo hi : Nat)
    (hnative : ∀ env st', st'.wrapper = st.wrapper →
      f.native.eval m lib env st' = some (w, st'))
    (typed : Typed m t true (.sequence e.shape maxBound) v)
    (rep : Represents m t st.memory lo hi (.sequence e.shape maxBound) v w)
    (hself : st.self = around x) :
    execAll m lib (t.sequenceFromNative depth f e maxBound (listAllocation e.valueType maxBound)) []
      st = some ([], st.set .value (around v)) := by
  obtain ⟨items, b, rfl, rfl, hbound, hfits, hcount, hitems⟩ := rep.sequence_cases typed
  let width := (t.slot e).width m
  let n := items.length
  change 4 + n * width ≤ 2147483647 at hfits
  have hwidth : 0 < width := slot_width_pos m t e
  have hn : n ≤ 2147483647 := by
    have hle := Nat.le_mul_of_pos_right n hwidth
    omega
  let states : Nat → State := fun k => st.set .value (around (.list (items.take k)))
  have hempty := exec_assign m lib f.value (listAllocation e.valueType maxBound) (.list []) [] [] st
    st (states 0) (bound_listAllocation m lib e.valueType maxBound hmax [] st)
    ((hvalue []).assign st x _ hself)
  have hstored : (Expr.call (.read .int32) [f.native, .nat 0]).eval m lib [] (states 0) =
      some (.int n, states 0) := by
    refine eval_call m lib _ _ [] _ _ [.handle (some ⟨b, 0⟩), .int 0] _
      (evalAll_cons m lib _ _ [] _ _ _ _ _ (hnative [] _ rfl) (evalAll_cons m lib _ _ [] _ _ _ _ _
        (bound_nat m lib [] 0 (by omega) _) rfl)) ?_
    have hload := (states 0).memory.load?_of_cell? _ _ hcount
    simp only at hload
    simp [Machine.call?, Address.add, hload, n]
  have hbounded := eval_bounded m lib maxBound hmax hstored
  rw [cutTo_eq_self hbound] at hbounded
  have hdeclareCount := exec_declare m lib (.builtin .int) .count _ _ [] _ _ hbounded
  have hdeclareSize := exec_declare m lib (.builtin .int) .size _ _ [(.count, .int n)] _ _
    (bound_slotSize m lib t e _ (states 0))
  let env : Env := [(.size, .int width), (.count, .int n)]
  have hround : ∀ i < n, ∀ s, s = states i → ∃ pre s',
      execAll m lib (t.loadFromSlot e f.native (sequenceOffset (counter depth)) fun staged =>
        .run (.invoke f.value .add [staged])) ((.counter depth, .int i) :: env) s =
          some (pre ++ (.counter depth, .int i) :: env, s') ∧ s' = states (i + 1) := by
    intro i hlt s hs
    subst hs
    have hitem : items[i]? = some items[i] := List.getElem?_eq_getElem hlt
    obtain ⟨item, hcell, htyped, hrep⟩ := hitems i _ hitem
    have hend := row_end_le (p := width) hlt
    obtain ⟨pre, hexec⟩ := exec_loadFromSlot e reads ((.counter depth, .int i) :: env) f.native _ b
      (4 + i * width) (fun staged => .run (.invoke f.value .add [staged])) items[i] item (states i)
      (states (i + 1)) lo hi (fun env' => hnative env' _ rfl)
      (fun pre hpre => bound_sequenceOffset m lib rfl (by omega) hpre) htyped hrep hcell (by
        intro pre staged hpre hstaged
        refine exec_run_append m lib .value f.site.field staged (items.take i) items[i] _ _ _
          ((hvalue _).eval _ _ rfl) hstaged ?_
        rw [List.take_append_getElem hlt]
        exact (hvalue _).assign (states i) (.list (items.take i)) _ rfl)
    exact ⟨pre, _, hexec, rfl⟩
  obtain ⟨s', hloop, rfl⟩ := exec_countUp m lib (fun k s => s = states k) depth n (.var .count) _ env
    (states 0) (bound_local m lib (by simp) rfl) hround rfl
  have hall : states n = st.set .value (around (.list items)) := by
    simp only [states, n, List.take_length]
  have hwhen := exec_when_true m lib (isHandle f.native) _ [] env (states 0) (states n)
    (eval_isHandle f.native _ [] _ (hnative [] _ rfl))
    ((execAll_cons m lib _ _ [] _ _ _ hdeclareCount).trans
      ((execAll_cons m lib _ _ _ env _ _ hdeclareSize).trans
        (execAll_cons m lib _ [] env env _ _ hloop)))
  rw [Target.sequenceFromNative, execAll_cons m lib _ _ [] [] st _ hempty, ← hall]
  exact execAll_cons m lib _ [] [] [] _ _ hwhen

end

end InteropGen

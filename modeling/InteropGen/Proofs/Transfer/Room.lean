import InteropGen.Proofs.Transfer.Sizes

/-!
# Conversions that find room

The collections of a value, its fields, and the whole of it: a `ToNative` that comes to its end has
converted a value whose sizes fit (`findsRoom`). A buffer that is too small for its cells is left at
the first of them that lies outside, and until then offsets are exact, because they are below the size
of the buffer. The proof is an induction on how deeply structs are nested, as that of `converts`.
-/

set_option autoImplicit false

namespace InteropGen

open CSharp

section
variable {m : Machine} {t : Target} {lib : Library}

/-- An allocation that has a result was not one of a negative number of bytes. -/
theorem nonneg_of_allocate {place bytes : Expr} {n : Int} {env : Env} {st : State}
    {result : Env × State} (hbytes : Bound m lib env bytes (.int n))
    (h : execAll m lib (allocate place bytes) env st = some result) : 0 ≤ n := by
  obtain ⟨_, _, hassign, _⟩ := execAll_cons_some m lib h
  by_contra hnegative
  have hcall : (Expr.call .allocHGlobal [bytes]).eval m lib env st = none :=
    eval_call m lib _ _ env st st [.int n] _ (evalAll_cons m lib _ _ env st st st _ _ (hbytes st) rfl)
      (by simp [Machine.call?, hnegative])
  simp [Stmt.exec, hcall] at hassign

/-- The block of a sequence has room for the number of its elements. -/
theorem room_of_allocateSequence {place bytes : Expr} {n : Nat} {size : Int} {env : Env}
    {around : Value → Value} {w : Value} {st : State} {result : Env × State}
    (hbytes : Bound m lib env bytes (.int size)) (hcount : env.lookup .count = some (.int n))
    (hn : n ≤ 2147483647) (hplace : PlaceAt m lib env place .transfer around)
    (hwrapper : st.wrapper = around w)
    (h : execAll m lib (allocate place bytes ++
      [.run (.call (.write .int32) [place, .nat 0, .var .count])]) env st = some result) :
    4 ≤ size := by
  obtain ⟨_, _, hallocated, hstored⟩ := execAll_append_some m lib h
  rw [exec_allocate place _ size (nonneg_of_allocate hbytes hallocated) env around hplace w st hwrapper
    hbytes] at hallocated
  cases hallocated
  obtain ⟨_, _, hstore, _⟩ := execAll_cons_some m lib hstored
  rw [exec_storeCount place n hn env st.memory.next _ (hplace.eval _ _ rfl) hcount] at hstore
  obtain ⟨_, hcell, _⟩ := Option.map_eq_some_iff.mp hstore
  simpa using (Memory.room_of_store? (st.memory.alloc_blocks_next _) hcell).2

/-- An array inside its struct. -/
theorem sized_of_inlineArray (e : Element) (converts : ElementConverts m t lib e)
    (room : ∀ s, e = .struct s → FindsRoom m t lib s) (f : FieldView) (dims : List Nat) (length : Nat)
    (htransfer : e.transfer dims = .inline length) (valueAround placeAround : Value → Value)
    (hvalue : ∀ env, PlaceAt m lib env f.value .value valueAround)
    (hplace : ∀ env, PlaceAt m lib env f.native .transfer placeAround) (v w : Value) (depth : Nat)
    (st : State) (wellFormed : WellFormed t.layout (.array e.shape dims) v)
    (hself : st.self = valueAround v) (hwrapper : st.wrapper = placeAround w) {result : Env × State}
    (h : execAll m lib (t.inlineArrayToNative depth f e dims length) [] st = some result) :
    Sized m t (.array e.shape dims) v := by
  obtain ⟨g, rfl, valid, helements⟩ := wellFormed.array_cases
  obtain ⟨rfl, _⟩ := Element.transfer_eq_inline htransfer
  refine .array e dims g (fun _ houter => by simp [htransfer] at houter) ?_
  -- only structs have anything of their own to make room for
  cases e with
  | primitive kind => exact fun idx _ => .primitive kind (g idx)
  | string kind => exact fun idx _ => .string kind (g idx)
  | enum e => exact fun idx _ => .enum e (g idx)
  | struct s =>
    let e : Element := .struct s
    let zero := lib.zero (t.elementTransferType e)
    rw [Target.inlineArrayToNative, if_neg (by simp [Platform.copiesDirectly])] at h
    obtain ⟨_, _, hfresh, hnest⟩ := execAll_cons_some m lib h
    rw [exec_assign m lib _ _ (.array 1 (List.replicate dims.prod zero)) [] [] st st _ rfl
      ((hplace []).assign st w _ hwrapper)] at hfresh
    cases hfresh
    let Inv : Nat → State → Prop := fun k s =>
      Laid m t e placeAround zero dims g st k s ∧
        ∀ idx, InBounds dims idx → flat dims idx < k → Sized m t e.shape (g idx)
    have hbody : ∀ idx, InBounds dims idx → ∀ env' counters,
        Counting (depth + dims.length) env' counters idx → Env.SameLocals [] env' →
        ∀ s last s', Inv (flat dims idx) s →
          execAll m lib (t.elementToNative e (t.layout.elementAt f.value counters)
            (.index f.native [flatIndex dims counters])) env' s = some (last, s') →
          (∃ pre, last = pre ++ env') ∧ Inv (flat dims idx + 1) s' := by
      intro idx hidx env' counters hcounters _ s last s' hinv hexec
      obtain ⟨laid, hbefore⟩ := hinv
      obtain ⟨_, around, _, helement, hitem, hspot, hwrapper', _⟩ :=
        laid.next valid hidx f hcounters (hvalue env') (hplace env') hself
      have sized := sized_of_elementToNative e room (helements idx hidx) (storage_zero e converts)
        (helement.eval s _ hitem) (hspot.eval s _ hwrapper') hexec
      obtain ⟨s'', hrun, hlaid⟩ := laid.exec_elementToNative converts valid hidx
        (typed_iff.mpr ⟨helements idx hidx, sized⟩) f hcounters (hvalue env') (hplace env') hself
      cases hexec.symm.trans hrun
      refine ⟨⟨[], rfl⟩, hlaid, fun idx' hidx' hlt => ?_⟩
      rcases Nat.lt_succ_iff_lt_or_eq.mp hlt with hearlier | hsame
      · exact hbefore idx' hidx' hearlier
      · rw [flat_injective hidx' hidx hsame]
        exact sized
    have hstart : Inv 0 (st.set .transfer (placeAround (.array 1 (List.replicate dims.prod zero)))) := by
      refine ⟨⟨rfl, .of_eq rfl rfl rfl, [], rfl, rfl, ?_⟩, fun _ _ hlt => absurd hlt (Nat.not_lt_zero _)⟩
      intro idx native _ hnative
      cases hnative
    obtain ⟨_, hall⟩ := loopNest_of_exec m lib Inv _ dims valid depth [] _ _ _ hbody hstart hnest
    exact fun idx hidx => hall idx hidx (flat_lt hidx)

/-- An array of structs behind a handle. -/
theorem sized_of_outOfLineArray (e : Element) (converts : ElementConverts m t lib e)
    (room : ∀ s, e = .struct s → FindsRoom m t lib s) (f : FieldView) (dims : List Nat) (length : Nat)
    (htransfer : e.transfer dims = .outOfLine length) (valueAround placeAround : Value → Value)
    (hvalue : ∀ env, PlaceAt m lib env f.value .value valueAround)
    (hplace : ∀ env, PlaceAt m lib env f.native .transfer placeAround) (v w : Value) (depth : Nat)
    (st : State) (wellFormed : WellFormed t.layout (.array e.shape dims) v)
    (hself : st.self = valueAround v) (hwrapper : st.wrapper = placeAround w) {result : Env × State}
    (h : execAll m lib (t.outOfLineArrayToNative depth f e dims length) [] st = some result) :
    Sized m t (.array e.shape dims) v := by
  obtain ⟨g, rfl, valid, helements⟩ := wellFormed.array_cases
  obtain ⟨rfl, _⟩ := Element.transfer_eq_outOfLine htransfer
  let b := st.memory.next
  let width := (t.slot e).width m
  let size := int32 (width * dims.prod : Int)
  have hlimit : size ≤ 2147483647 := (inInt32_int32 _).2
  let env : Env := [(.size, .int width)]
  let handle : Value := .handle (some ⟨b, 0⟩)
  have hcount := valid.count_lt
  have hbytes : Bound m lib env (.binary .times (.var .size) (.nat dims.prod)) (.int size) :=
    bound_product m lib (bound_local m lib (by simp) rfl) (bound_nat m lib env _ (by omega))
  obtain ⟨_, _, hblock, _⟩ := execAll_cons_some m lib h
  obtain ⟨_, hinner⟩ := exec_block_some m lib hblock
  rw [List.cons_append, execAll_cons m lib _ _ [] env st st
    (exec_declare m lib _ _ _ _ [] st st (bound_slotSize m lib t e [] st))] at hinner
  obtain ⟨_, _, hallocated, hnest⟩ := execAll_append_some m lib hinner
  have hnonneg := nonneg_of_allocate hbytes hallocated
  rw [exec_allocate f.native _ size hnonneg env placeAround (hplace env) w st hwrapper hbytes]
    at hallocated
  cases hallocated
  let st₁ : State := { st with
    wrapper := placeAround handle
    released := st.released ++ [some ⟨b, 0⟩]
    memory := (st.memory.alloc (.buffer size fun _ => none)).2 }
  let Inv : Nat → State → Prop := fun k s =>
    (Filled m t e st b size 0 (fun _ => none) ((rowMajor dims).map g) k s ∧
      s.wrapper = placeAround handle) ∧
    (k * width : Nat) ≤ size ∧
    ∀ idx, InBounds dims idx → flat dims idx < k → Sized m t e.shape (g idx)
  have hbody : ∀ idx, InBounds dims idx → ∀ env' counters,
      Counting (depth + dims.length) env' counters idx → env.SameLocals env' →
      ∀ s last s', Inv (flat dims idx) s →
        execAll m lib (t.storeInSlot e f.native (slotOffset dims counters)
          (t.layout.elementAt f.value counters)) env' s = some (last, s') →
        (∃ pre, last = pre ++ env') ∧ Inv (flat dims idx + 1) s' := by
    intro idx hidx env' counters hcounters hlocals s last s' hinv hexec
    obtain ⟨⟨filled, hwrapper'⟩, hroom, hbefore⟩ := hinv
    obtain ⟨around, harray, hitem⟩ := exists_placeAt_elementAt m lib t.layout valid hidx g
    have hnext : ((rowMajor dims).map g)[flat dims idx]? = some (g idx) := by
      rw [List.getElem?_map, rowMajor_getElem_flat hidx, Option.map_some]
    obtain ⟨sized, hend, hlast, hkept, hfilled⟩ := filled.storeInSlot_of_exec converts room width rfl
      (fun _ _ hnone => by cases hnone) hnext (helements idx hidx)
      (fun pre hpre => hitem _ _ _ _ _ _ (hvalue (pre ++ env')) (hcounters.staging hpre))
      (by rw [filled.self, hself, ← harray])
      (fun env'' s' hs' => (hplace env'').eval s' handle (hs'.trans hwrapper'))
      (fun pre hpre => by
        rw [Nat.zero_add]
        exact bound_slotOffset m lib valid hidx hcounters hlocals rfl (by omega) hpre)
      hexec
    refine ⟨hlast, ⟨hfilled, hkept.trans hwrapper'⟩, ?_, fun idx' hidx' hlt => ?_⟩
    · rw [Nat.succ_mul]
      omega
    · rcases Nat.lt_succ_iff_lt_or_eq.mp hlt with hearlier | hsame
      · exact hbefore idx' hidx' hearlier
      · rw [flat_injective hidx' hidx hsame]
        exact sized
  have hstart : Inv 0 st₁ := by
    refine ⟨⟨.start rfl rfl rfl rfl rfl rfl, rfl⟩, ?_, fun _ _ hlt => absurd hlt (Nat.not_lt_zero _)⟩
    simpa using hnonneg
  obtain ⟨_, hroom, hall⟩ :=
    loopNest_of_exec m lib Inv _ dims valid depth env _ st₁ _ hbody hstart hnest
  refine .array e dims g ?_ fun idx hidx => hall idx hidx (flat_lt hidx)
  intro length hlength
  obtain rfl := (Element.transfer_eq_outOfLine hlength).1
  show width * dims.prod ≤ 2147483647
  have hcomm := Nat.mul_comm width dims.prod
  omega

/-- A list behind a handle. -/
theorem sized_of_sequence (e : Element) (converts : ElementConverts m t lib e)
    (room : ∀ s, e = .struct s → FindsRoom m t lib s) (f : FieldView) (maxBound : Nat)
    (hbound : maxBound ≤ 2147483647) (valueAround placeAround : Value → Value)
    (hvalue : ∀ env, PlaceAt m lib env f.value .value valueAround)
    (hplace : ∀ env, PlaceAt m lib env f.native .transfer placeAround) (v w : Value) (depth : Nat)
    (st : State) (wellFormed : WellFormed t.layout (.sequence e.shape maxBound) v)
    (hself : st.self = valueAround v) (hwrapper : st.wrapper = placeAround w) {result : Env × State}
    (h : execAll m lib (t.sequenceToNative depth f e maxBound) [] st = some result) :
    Sized m t (.sequence e.shape maxBound) v := by
  obtain ⟨items, rfl, hwithin, hcount, hitems⟩ := wellFormed.sequence_cases
  have hcut := cutTo_eq_self hwithin
  let b := st.memory.next
  let n := items.length
  let width := (t.slot e).width m
  let size := int32 (4 + int32 (n * width : Int))
  have hlimit : size ≤ 2147483647 := (inInt32_int32 _).2
  let env : Env := [(.size, .int width), (.count, .int n)]
  let handle : Value := .handle (some ⟨b, 0⟩)
  have hbytes : Bound m lib env
      (.sum [.constant .sizeOfInt, .binary .times (.var .count) (.var .size)]) (.int size) :=
    bound_sumPastCount m lib (bound_product m lib (bound_local m lib (by simp) rfl)
      (bound_local m lib (by simp) rfl))
  have hdeclareCount := exec_declare m lib (.builtin .int) .count _ _ [] st st
    (eval_count f maxBound hbound valueAround [] (hvalue []) _ items (.inl rfl) hcount st hself)
  rw [hcut] at hdeclareCount
  obtain ⟨_, _, hblock, _⟩ := execAll_cons_some m lib h
  obtain ⟨_, hinner⟩ := exec_block_some m lib hblock
  rw [List.append_assoc, List.append_assoc, ← List.append_assoc (allocate _ _), List.cons_append,
    List.singleton_append, execAll_cons m lib _ _ [] _ st st hdeclareCount,
    execAll_cons m lib _ _ _ env st st
      (exec_declare m lib _ _ _ _ [(.count, .int n)] st st (bound_slotSize m lib t e _ st))] at hinner
  obtain ⟨_, st₁, hfront, hloop⟩ := execAll_append_some m lib hinner
  have hroom := room_of_allocateSequence hbytes rfl hcount (hplace env) hwrapper hfront
  obtain ⟨_, hallocated, hwrapper₁, hfilled⟩ := exec_allocateSequence t e items f.native _ env
    placeAround (hplace env) w st hwrapper n size rfl hcount hbytes hroom
  cases hfront.symm.trans hallocated
  let Inv : Nat → State → Prop := fun k s =>
    (Filled m t e st b size 4 (countCells n) items k s ∧ s.wrapper = placeAround handle) ∧
    (4 + k * width : Nat) ≤ size ∧ ∀ j < k, ∀ item, items[j]? = some item → Sized m t e.shape item
  have hbody : ∀ i < n, ∀ s last s', Inv i s →
      execAll m lib (t.storeInSlot e f.native (sequenceOffset (counter depth))
        (.index f.value [counter depth])) ((.counter depth, .int i) :: env) s = some (last, s') →
      (∃ pre, last = pre ++ (.counter depth, .int i) :: env) ∧ Inv (i + 1) s' := by
    intro i hi s last s' hinv hexec
    obtain ⟨⟨filled, hwrapper'⟩, hfits, hbefore⟩ := hinv
    have hitem : items[i]? = some items[i] := List.getElem?_eq_getElem hi
    obtain ⟨sized, hend, hlast, hkept, hfilled⟩ := filled.storeInSlot_of_exec converts room width rfl
      (countCells_inside n) hitem (hitems _ (List.getElem_mem _)) (placeAt_nextItem hvalue hi depth env)
      (by
        rw [filled.self, hself]
        exact congrArg (fun l => valueAround (.list l)) (list_around items i _ hitem))
      (fun env' s' hs' => (hplace env').eval s' handle (hs'.trans hwrapper'))
      (fun pre hpre => bound_sequenceOffset m lib rfl (by omega) hpre) hexec
    refine ⟨hlast, ⟨hfilled, hkept.trans hwrapper'⟩, ?_, fun j hj item hitem' => ?_⟩
    · rw [Nat.succ_mul]
      omega
    · rcases Nat.lt_succ_iff_lt_or_eq.mp hj with hearlier | rfl
      · exact hbefore j hearlier item hitem'
      · cases hitem.symm.trans hitem'
        exact sized
  obtain ⟨_, _, hcounted, _⟩ := execAll_cons_some m lib hloop
  obtain ⟨_, _, hfits, hall⟩ := countUp_of_exec m lib Inv depth n (.var .count) _ env _ st₁ _
    (bound_local m lib (by simp) rfl) hbody
    ⟨⟨hfilled, hwrapper₁⟩, by simpa using hroom, fun _ hlt => absurd hlt (Nat.not_lt_zero _)⟩ hcounted
  refine .list e maxBound items ?_ ?_
  · intro item hmem
    obtain ⟨j, hj, hitem⟩ := List.getElem_of_mem hmem
    exact hall j hj item (by rw [List.getElem?_eq_getElem hj, hitem])
  · rw [hcut]
    show 4 + n * width ≤ 2147483647
    omega

/-- One field. -/
theorem sized_of_toNative (f : FieldView) (depth : Nat) (htransferable : f.shape.Transferable t.layout)
    (converts : ShapeConverts m t lib f.shape) (room : ∀ s ∈ f.shape.structs, FindsRoom m t lib s)
    (p q : String) (vals ws : String → Value) (st : State)
    (wellFormed : WellFormed t.layout f.shape (vals f.site.field))
    (storage : Storage t f.shape (ws f.site.field)) (hself : st.self = .record p vals)
    (hwrapper : st.wrapper = .record q ws) {result : Env × State}
    (h : execAll m lib (t.toNative depth f).stmts [] st = some result) :
    Sized m t f.shape (vals f.site.field) := by
  let name := f.site.field
  have hvalue := fun env => placeAt_field m lib env .value name p vals
  have hplace := fun env => placeAt_field m lib env .transfer name q ws
  have hself' : st.self = .record p (Function.update vals name (vals name)) := by
    rw [hself, Function.update_eq_self]
  have hwrapper' : st.wrapper = .record q (Function.update ws name (ws name)) := by
    rw [hwrapper, Function.update_eq_self]
  rcases htransferable.cases with ⟨e, hshape⟩ | ⟨e, dims, hshape, valid⟩ | ⟨e, maxBound, hshape, hbridges⟩
  · rw [t.toNative_element depth f e hshape] at h
    rw [hshape] at wellFormed storage room ⊢
    exact sized_of_elementToNative e (fun s hs => room s (mem_structs_element hs)) wellFormed storage
      ((hvalue []).eval st _ hself') ((hplace []).eval st _ hwrapper') h
  · rw [t.toNative_array depth f e dims hshape valid] at h
    rw [hshape] at wellFormed converts room ⊢
    have helement : ElementConverts m t lib e := converts.element rfl rfl
    cases htransfer : e.transfer dims with
    | inline length =>
      rw [htransfer] at h
      exact sized_of_inlineArray e helement (fun s hs => room s (mem_structs_element hs)) f dims length
        htransfer _ _ hvalue hplace _ _ depth st wellFormed hself' hwrapper' h
    | outOfLine length =>
      rw [htransfer] at h
      exact sized_of_outOfLineArray e helement (fun s hs => room s (mem_structs_element hs)) f dims
        length htransfer _ _ hvalue hplace _ _ depth st wellFormed hself' hwrapper' h
  · rw [t.toNative_sequence depth f e maxBound hshape hbridges] at h
    rw [hshape] at wellFormed converts room ⊢
    exact sized_of_sequence e (converts.element rfl rfl) (fun s hs => room s (mem_structs_element hs)) f
      maxBound (converts.bound _ _ rfl) _ _ hvalue hplace _ _ depth st wellFormed hself' hwrapper' h

/-- Fields in order. -/
theorem sized_of_fieldsToNative (fields : List FieldView)
    (hfields : ∀ f ∈ fields, f.shape.Transferable t.layout ∧ ShapeConverts m t lib f.shape ∧
      ∀ s ∈ f.shape.structs, FindsRoom m t lib s)
    (hdistinct : (fields.map (·.site.field)).Nodup) (p q : String) (vals ws : String → Value)
    (st : State) (wellFormed : ∀ f ∈ fields, WellFormed t.layout f.shape (vals f.site.field))
    (storage : ∀ f ∈ fields, Storage t f.shape (ws f.site.field)) (hself : st.self = .record p vals)
    (hwrapper : st.wrapper = .record q ws) {result : Env × State}
    (h : execAll m lib (bodyOf fields t.toNative) [] st = some result) :
    ∀ f ∈ fields, Sized m t f.shape (vals f.site.field) := by
  induction fields generalizing ws st with
  | nil => simp
  | cons f rest ih =>
    obtain ⟨⟨htransferable, hconverts, hroom⟩, hrest⟩ := List.forall_mem_cons.mp hfields
    obtain ⟨hvalue, hvalues⟩ := List.forall_mem_cons.mp wellFormed
    obtain ⟨hstorage, hstorageRest⟩ := List.forall_mem_cons.mp storage
    rw [List.map_cons, List.nodup_cons] at hdistinct
    obtain ⟨hnotin, hdistinctRest⟩ := hdistinct
    rw [bodyOf, List.flatMap_cons] at h
    obtain ⟨_, st₁, hfirst, hlast⟩ := execAll_append_some m lib h
    have sized := sized_of_toNative f 0 htransferable hconverts hroom p q vals ws st hvalue hstorage
      hself hwrapper hfirst
    obtain ⟨native, _, hexec, hself₁, hwrapper₁, _⟩ := exec_toNative true f 0 htransferable hconverts
      p q vals ws st (typed_iff.mpr ⟨hvalue, sized⟩) hstorage hself hwrapper
    cases hfirst.symm.trans hexec
    refine List.forall_mem_cons.mpr ⟨sized, ?_⟩
    refine ih hrest hdistinctRest _ st₁ hvalues ?_ (hself₁.trans hself) hwrapper₁ hlast
    intro g hg
    have hne : g.site.field ≠ f.site.field := fun heq => hnotin (heq ▸ List.mem_map_of_mem hg)
    rw [Function.update_of_ne hne]
    exact hstorageRest g hg

/-- Every generated `ToNative` finds room for what it converts, or does not come to its end. -/
theorem findsRoom (wireCodec : Bool) (depth : Nat) (s : StructType) (hdepth : s.nesting ≤ depth)
    (compiled : Compiled m t wireCodec s) : FindsRoom m t (m.library depth) s := by
  induction depth generalizing s with
  | zero =>
    rw [nesting_eq] at hdepth
    omega
  | succ depth ih =>
    have hnested : ∀ f ∈ s.fields, ∀ inner ∈ f.type.shape.structs,
        inner.nesting ≤ depth ∧ Compiled m t wireCodec inner := by
      intro f hf inner hinner
      have hlt := nesting_lt s inner f hf hinner
      exact ⟨by omega, compiled.field f hf hinner⟩
    obtain ⟨c, transfers, declares⟩ := compiled.hosts.declares
    intro v w st callee wellFormed storage hself hwrapper hcall
    cases wellFormed with
    | struct _ fields hfields _ =>
    cases storage with
    | other _ _ hshape => exact absurd rfl (hshape s)
    | struct _ ws hws =>
    have hready : ∀ f ∈ Target.views s, f.shape.Transferable t.layout ∧
        ShapeConverts m t (m.library depth) f.shape ∧
        ∀ inner ∈ f.shape.structs, FindsRoom m t (m.library depth) inner := by
      refine forall_mem_views fun f hf => ⟨declares.transferable f hf, ?_, ?_⟩
      · refine compiled.shapeConverts (fun f hf inner hinner => ?_) f hf
        exact converts wireCodec depth inner (hnested f hf inner hinner).1 (hnested f hf inner hinner).2
      · exact fun inner hinner => ih inner (hnested f hf inner hinner).1 (hnested f hf inner hinner).2
    have hbody : ∃ result,
        execAll m (m.library depth) (bodyOf (Target.views s) t.toNative) [] st = some result := by
      simp only [Machine.library, declares.value, ValueClass.body, declares.bodies.toNative,
        Option.map_eq_some_iff] at hcall
      obtain ⟨result, hexec, _⟩ := hcall
      exact ⟨result, hexec⟩
    obtain ⟨result, hexec⟩ := hbody
    have hsized := sized_of_fieldsToNative (Target.views s) hready
      (by rw [views_names]; exact compiled.hosts.distinct) _ _ fields ws st (forall_mem_views hfields)
      (forall_mem_views hws) hself hwrapper hexec
    exact .struct s _ fields fun f hf => hsized _ (List.mem_map_of_mem hf)

end

end InteropGen

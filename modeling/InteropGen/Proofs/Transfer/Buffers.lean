import InteropGen.Proofs.Transfer.Slots

/-!
# Filling a buffer

A buffer is filled slot by slot while the elements that go into it allocate memory of their own. The
cells of earlier slots stay, because the slots lie apart, and so does what they refer to, because it
lies in blocks after the buffer.

* `Filled` — the invariant, by the number of elements stored; `Filled.start`, `exec_allocate` and
  `exec_allocateSequence` establish it;
* `writeCell_slots`, `Filled.exec_storeInSlot` — one more element, and what it leaves of the others;
* `Filled.outOfLine`, `Filled.sequence` — what the buffer stands for in the end.
-/

set_option autoImplicit false

namespace InteropGen

open CSharp

/-- The buffer `b`, allocated in `st₀` as the next block, holds the first `k` of the items from
offset `base` on, and whatever it held before it. -/
structure Filled (m : Machine) (t : Target) (e : Element) (st₀ : State) (b : Nat) (size : Int)
    (base : Nat) (lead : Int → Option Cell) (items : List Value) (k : Nat) (st : State) : Prop where
  self : st.self = st₀.self
  wire : st.wire = st₀.wire
  released : st.released = st₀.released ++ handles b st.memory.next
  below : st₀.memory.AgreesOn 0 b st.memory
  next : b < st.memory.next
  freed : st.memory.freed = st₀.memory.freed
  live : ∀ b', b ≤ b' → b' < st.memory.next → (st.memory.blocks b').isSome
  cells : ∃ (cells : Int → Option Cell) (natives : List Value), st.memory.blocks b = some (.buffer size cells) ∧ natives.length = k ∧
    (∀ o c, lead o = some c → cells o = some c) ∧
    (∀ (j : Nat) item native, items[j]? = some item → natives[j]? = some native →
      cells (base + j * (t.slot e).width m : Nat) = some (t.cell m e item native)) ∧
    ∀ (j : Nat) item native, items[j]? = some item → natives[j]? = some native →
      Represents m t st.memory (b + 1) st.memory.next e.shape item native

/-- An item of a list with one more at its end. -/
theorem getElem?_snoc_cases {α : Type} {xs : List α} {x y : α} {j : Nat}
    (h : (xs ++ [x])[j]? = some y) : xs[j]? = some y ∨ j = xs.length ∧ y = x := by
  by_cases hj : j < xs.length
  · rw [List.getElem?_append_left hj] at h
    exact .inl h
  · rw [List.getElem?_append_right (by omega)] at h
    have hlast := (List.getElem?_eq_some_iff.mp h).1
    have hzero : j = xs.length := by
      simp only [List.length_singleton] at hlast
      omega
    subst hzero
    rw [Nat.sub_self] at h
    exact .inr ⟨rfl, (Option.some.inj h).symm⟩

section
variable {m : Machine} {t : Target} {e : Element} {st₀ : State} {b base : Nat} {size : Int}
  {lead : Int → Option Cell} {items : List Value}

/-- The slots of earlier elements do not overlap the one that is written. -/
theorem writeCell_slots {natives : List Value} {cells : Int → Option Cell} {item native : Value}
    (hitem : items[natives.length]? = some item)
    (hcells : ∀ (j : Nat) item native, items[j]? = some item → natives[j]? = some native →
      cells (base + j * (t.slot e).width m : Nat) = some (t.cell m e item native))
    (j : Nat) (item' native' : Value) (hitem' : items[j]? = some item')
    (hnative' : (natives ++ [native])[j]? = some native') :
    writeCell cells (base + natives.length * (t.slot e).width m : Nat) (t.cell m e item native)
      (base + j * (t.slot e).width m : Nat) = some (t.cell m e item' native') := by
  rcases getElem?_snoc_cases hnative' with hbefore | ⟨rfl, rfl⟩
  · have hwidth := slot_width_pos m t e
    have hcellWidth : (t.cell m e item' native').width = (t.slot e).width m := Slot.cell_width ..
    have hend := row_end_le (p := (t.slot e).width m) (List.getElem?_eq_some_iff.mp hbefore).1
    refine writeCell_apart _ _ _ _ _ (by omega) (hcells j item' native' hitem' hbefore) (.inl ?_)
    rw [hcellWidth]
    omega
  · cases hitem.symm.trans hitem'
    exact writeCell_same ..

/-- Storing the next element, after it has been staged. -/
theorem Filled.store {k : Nat} {st st₁ : State} {item native : Value}
    (filled : Filled m t e st₀ b size base lead items k st)
    (hlead : ∀ o c, lead o = some c → o < base ∧ o + c.width ≤ base)
    (hitem : items[k]? = some item) (hself : st₁.self = st.self) (hmarshals : Marshals st st₁)
    (hrep : Represents m t st₁.memory st.memory.next st₁.memory.next e.shape item native)
    (cells : Int → Option Cell) (hblock : st.memory.blocks b = some (.buffer size cells)) :
    Filled m t e st₀ b size base lead items (k + 1)
      { st₁ with
        memory := withCells st₁.memory b size
          (writeCell cells (base + k * (t.slot e).width m : Nat) (t.cell m e item native)) } := by
  obtain ⟨cells', natives, hblock', rfl, hkeeps, hcells, hreps⟩ := filled.cells
  cases hblock'.symm.trans hblock
  have hnext := hmarshals.memory.next_le
  have hb := filled.next
  refine ⟨hself.trans filled.self, hmarshals.wire.trans filled.wire, ?_, ?_, ?_,
    hmarshals.memory.freed.trans filled.freed, ?_, ?_⟩
  · rw [hmarshals.released, filled.released, List.append_assoc,
      handles_append (by omega) hnext]
    rfl
  · intro b' hlo hhi
    rw [withCells_apart _ (by omega), hmarshals.memory.same b' hlo (by omega),
      filled.below b' hlo hhi]
  · exact Nat.lt_of_lt_of_le hb hnext
  · intro b' hlo hhi
    by_cases heq : b' = b
    · rw [heq, withCells_same, Option.isSome_some]
    · rw [withCells_apart _ heq]
      by_cases hnew : st.memory.next ≤ b'
      · exact hmarshals.memory.live b' hnew hhi
      · rw [hmarshals.memory.same b' (Nat.zero_le _) (by omega)]
        exact filled.live b' hlo (by omega)
  · refine ⟨_, natives ++ [native], withCells_same .., by simp, ?_, writeCell_slots hitem hcells, ?_⟩
    · intro o c hc
      obtain ⟨hbefore, hfar⟩ := hlead o c hc
      exact writeCell_apart _ _ _ _ _ (by omega) (hkeeps o c hc) (.inl (by omega))
    · -- what a slot refers to lies in blocks after the buffer
      intro j item' native' hitem' hnative'
      rcases getElem?_snoc_cases hnative' with hbefore | ⟨rfl, rfl⟩
      · refine (hreps j item' native' hitem' hbefore).mono (Nat.le_refl _) hnext ?_
        intro b' hlo hhi
        rw [withCells_apart _ (by omega), hmarshals.memory.same b' (Nat.zero_le _) hhi]
      · cases hitem.symm.trans hitem'
        refine hrep.mono (by omega) (Nat.le_refl _) ?_
        intro b' hlo hhi
        exact withCells_apart _ (by omega) ..

/-- A buffer that was just allocated. -/
theorem Filled.start {st : State} (hself : st.self = st₀.self) (hwire : st.wire = st₀.wire)
    (hreleased : st.released = st₀.released ++ [some ⟨st₀.memory.next, 0⟩])
    (hblocks : st.memory.blocks =
      Function.update st₀.memory.blocks st₀.memory.next (some (.buffer size lead)))
    (hnext : st.memory.next = st₀.memory.next + 1) (hfreed : st.memory.freed = st₀.memory.freed) :
    Filled m t e st₀ st₀.memory.next size base lead items 0 st where
  self := hself
  wire := hwire
  released := by rw [hreleased, hnext, handles_succ]
  below := by
    intro b _ hb
    rw [hblocks, Function.update_of_ne (by omega)]
  next := by omega
  freed := hfreed
  live := by
    intro b hlo hhi
    have hb : b = st₀.memory.next := by omega
    rw [hb, hblocks, Function.update_self]
    rfl
  cells := by
    refine ⟨lead, [], by rw [hblocks, Function.update_self], rfl, fun _ _ h => h, ?_, ?_⟩
    · intro j item native _ hnative
      cases hnative
    · intro j item native _ hnative
      cases hnative

theorem Filled.marshals {k : Nat} {st : State}
    (filled : Filled m t e st₀ st₀.memory.next size base lead items k st) : Marshals st₀ st where
  memory := ⟨filled.below, Nat.le_of_lt filled.next, filled.freed, filled.live⟩
  released := filled.released
  wire := filled.wire

/-- The statements that stage the next element and store it. -/
theorem Filled.exec_storeInSlot {lib : Library} {strict : Bool}
    (converts : ElementConverts m t lib e) (width : Nat) (hwidth : width = (t.slot e).width m)
    {k : Nat} {st : State} {item : Value} (filled : Filled m t e st₀ b size base lead items k st)
    (hlead : ∀ o c, lead o = some c → o < base ∧ o + c.width ≤ base)
    (hitem : items[k]? = some item) (typed : Typed m t strict e.shape item) {env : Env}
    {value buffer offset : Expr} {around : Value → Value}
    (hvalue : ∀ pre, Staging pre → PlaceAt m lib (pre ++ env) value .value around)
    (hself : st.self = around item)
    (hbuffer : ∀ env' st', st'.wrapper = st.wrapper →
      buffer.eval m lib env' st' = some (.handle (some ⟨b, 0⟩), st'))
    (hoffset : ∀ pre, Staging pre → Bound m lib (pre ++ env) offset (.int (base + k * width : Nat)))
    (hfits : (base + k * width : Nat) + width ≤ size) :
    ∃ pre st', execAll m lib (t.storeInSlot e buffer offset value) env st =
        some (pre ++ env, st') ∧
      st'.wrapper = st.wrapper ∧ Filled m t e st₀ b size base lead items (k + 1) st' := by
  subst hwidth
  obtain ⟨cells, _, hblock, _⟩ := filled.cells
  obtain ⟨pre, native, st₁, hexec, hself₁, hwrapper₁, hmarshals, hrep⟩ :=
    InteropGen.exec_storeInSlot strict e converts env value around hvalue item st typed hself buffer
      offset b _ size cells hbuffer hoffset filled.next hblock hfits
  exact ⟨pre, _, hexec, hwrapper₁,
    filled.store hlead hitem hself₁ hmarshals hrep cells hblock⟩

/-- A buffer with all elements of an array stands for it. -/
theorem Filled.outOfLine {dims : List Nat} {g : List Nat → Value} {st : State}
    (htransfer : e.transfer dims = .outOfLine dims.prod)
    (filled : Filled m t e st₀ st₀.memory.next size 0 lead ((rowMajor dims).map g) dims.prod st) :
    Represents m t st.memory st₀.memory.next st.memory.next (.array e.shape dims)
      (t.layout.arrayValue dims g) (.handle (some ⟨st₀.memory.next, 0⟩)) := by
  have hitem : ∀ idx, InBounds dims idx → ((rowMajor dims).map g)[flat dims idx]? = some (g idx) := by
    intro idx hidx
    rw [List.getElem?_map, rowMajor_getElem_flat hidx]
    rfl
  obtain ⟨cells, natives, hblock, hnatives, _, hslots, hreps⟩ := filled.cells
  refine .outOfLine e dims dims.prod g natives _ htransfer (Nat.le_refl _) filled.next hnatives ?_ ?_
  · intro idx native hidx hnative
    have hslot := hslots _ _ native (hitem idx hidx) hnative
    rw [Nat.zero_add] at hslot
    simp only [Memory.cell?, hblock]
    exact hslot
  · intro idx native hidx hnative
    exact (hreps _ _ native (hitem idx hidx) hnative).mono (Nat.le_succ _) (Nat.le_refl _)
      fun _ _ _ => rfl

/-- The cells of a buffer that only the number of its elements has been stored in. -/
def countCells (n : Nat) : Int → Option Cell :=
  writeCell (fun _ => none) 0 ⟨.word .int32, 4, .int n⟩

theorem countCells_inside (n : Nat) :
    ∀ o c, countCells n o = some c → o < (4 : Nat) ∧ o + c.width ≤ (4 : Nat) := by
  intro o c hc
  simp only [countCells, writeCell] at hc
  split at hc
  · next ho =>
    cases hc
    simp [ho]
  · simp at hc

/-- A buffer with the number of elements and the elements of a list after it stands for the list. -/
theorem Filled.sequence {maxBound : Nat} {v : Value} {st : State}
    (hv : v = .list items ∨ v = .null ∧ items = [])
    (filled : Filled m t e st₀ st₀.memory.next size 4 (countCells (cutTo maxBound items.length)) items
      (cutTo maxBound items.length) st) :
    Represents m t st.memory st₀.memory.next st.memory.next (.sequence e.shape maxBound) v
      (.handle (some ⟨st₀.memory.next, 0⟩)) := by
  obtain ⟨cells, natives, hblock, hnatives, hkeeps, hslots, hreps⟩ := filled.cells
  refine .sequence e maxBound v items natives _ hv (Nat.le_refl _) filled.next hnatives ?_ ?_ ?_
  · simp only [Memory.cell?, hblock]
    rw [hnatives]
    exact hkeeps 0 _ (writeCell_same ..)
  · intro k item native hitem hnative
    simp only [Memory.cell?, hblock]
    exact hslots k item native hitem hnative
  · intro k item native hitem hnative
    exact (hreps k item native hitem hnative).mono (Nat.le_succ _) (Nat.le_refl _) fun _ _ _ => rfl

end

section
variable {m : Machine} {lib : Library}

/-- The allocation of a buffer for a place of the transfer struct. -/
theorem exec_allocate (place bytes : Expr) (n : Int) (hn : 0 ≤ n) (env : Env)
    (around : Value → Value) (hplace : PlaceAt m lib env place .transfer around) (w : Value)
    (st : State) (hwrapper : st.wrapper = around w) (hbytes : Bound m lib env bytes (.int n)) :
    execAll m lib (allocate place bytes) env st = some (env,
      { st with
        wrapper := around (.handle (some ⟨st.memory.next, 0⟩))
        released := st.released ++ [some ⟨st.memory.next, 0⟩]
        memory := (st.memory.alloc (.buffer n fun _ => none)).2 }) := by
  let h : Value := .handle (some ⟨st.memory.next, 0⟩)
  let st₁ : State := { st with memory := (st.memory.alloc (.buffer n fun _ => none)).2 }
  let st₂ := st₁.set .transfer (around h)
  have hcall : (Expr.call .allocHGlobal [bytes]).eval m lib env st = some (h, st₁) := by
    refine eval_call m lib _ _ env st st [.int n] _ (evalAll_cons m lib _ _ env st st st _ _
      (hbytes st) rfl) ?_
    simp [Machine.call?, h, st₁, Memory.alloc_address, hn]
  have hassign : (Stmt.assign place (.call .allocHGlobal [bytes])).exec m lib env st =
      some (env, st₂) :=
    exec_assign m lib _ _ h env env st st₁ st₂ hcall (hplace.assign st₁ w h hwrapper)
  have hadd := exec_run_add m lib place _ env st₂ (hplace.eval st₂ h rfl)
  rw [allocate, execAll_cons m lib _ _ env env st st₂ hassign]
  exact execAll_cons m lib _ [] env env st₂ _ hadd

/-- The statement that stores the number of elements in front of them. -/
theorem exec_storeCount (place : Expr) (n : Nat) (hn : n ≤ 2147483647) (env : Env) (b : Nat)
    (st : State) (hplace : place.eval m lib env st = some (.handle (some ⟨b, 0⟩), st))
    (hcount : env.lookup .count = some (.int n)) :
    (Stmt.run (.call (.write .int32) [place, .nat 0, .var .count])).exec m lib env st =
      (st.memory.store? ⟨b, 0⟩ ⟨.word .int32, 4, .int n⟩).map fun memory =>
        (env, { st with memory }) := by
  have hword : Machine.wordHolds .int32 (.int n) = true := by
    simp only [Machine.wordHolds, decide_eq_true_eq]
    omega
  have hcall : (Expr.call (.write .int32) [place, .nat 0, .var .count]).eval m lib env st =
      (st.memory.store? ⟨b, 0⟩ ⟨.word .int32, 4, .int n⟩).map fun memory =>
        (.null, { st with memory }) := by
    refine eval_call m lib _ _ env st st [.handle (some ⟨b, 0⟩), .int 0, .int n] _ ?_ ?_
    · exact evalAll_cons m lib _ _ env st st st _ _ hplace
        (evalAll_cons m lib _ _ env st st st _ _ (bound_nat m lib env 0 (by omega) st)
          (evalAll_cons m lib _ _ env st st st _ _ (bound_local m lib (by simp) hcount st) rfl))
    · simp [Machine.call?, hword, Address.add, Machine.wordWidth]
  rw [exec_run_call_eq m lib _ _ env st (by simp) (by simp) (by simp), hcall, Option.map_map]
  rfl

/-- The allocation of a buffer for a sequence, and the number of its elements, which is stored in
front of them. -/
theorem exec_allocateSequence (t : Target) (e : Element) (items : List Value) (place bytes : Expr)
    (env : Env) (around : Value → Value) (hplace : PlaceAt m lib env place .transfer around)
    (w : Value) (st : State) (hwrapper : st.wrapper = around w) (n : Nat) (size : Int)
    (hcount : env.lookup .count = some (.int n)) (hn : n ≤ 2147483647)
    (hbytes : Bound m lib env bytes (.int size)) (hroom : 4 ≤ size) :
    ∃ st', execAll m lib (allocate place bytes ++
          [.run (.call (.write .int32) [place, .nat 0, .var .count])]) env st = some (env, st') ∧
      st'.wrapper = around (.handle (some ⟨st.memory.next, 0⟩)) ∧
      Filled m t e st st.memory.next size 4 (countCells n) items 0 st' := by
  let b := st.memory.next
  let count : Cell := ⟨.word .int32, 4, .int n⟩
  have hallocate := exec_allocate place bytes size (by omega) env around hplace w st hwrapper hbytes
  let st₁ : State := { st with
    wrapper := around (.handle (some ⟨b, 0⟩))
    released := st.released ++ [some ⟨b, 0⟩]
    memory := (st.memory.alloc (.buffer size fun _ => none)).2 }
  let st₂ : State := { st₁ with memory := withCells st₁.memory b size (countCells n) }
  have hstore : (Stmt.run (.call (.write .int32) [place, .nat 0, .var .count])).exec m lib env st₁ =
      some (env, st₂) := by
    rw [exec_storeCount place n hn env b st₁ (hplace.eval st₁ _ rfl) hcount,
      st₁.memory.store?_eq ⟨b, 0⟩ count size (fun _ => none) (st.memory.alloc_blocks_next _)
        (Int.le_refl 0) (by simpa [count] using hroom)]
    rfl
  refine ⟨st₂, ?_, rfl, .start rfl rfl rfl ?_ rfl rfl⟩
  · rw [execAll_append m lib _ _ env env st st₁ hallocate]
    exact execAll_cons m lib _ [] env env st₁ st₂ hstore
  · simp [st₂, st₁, withCells, Memory.alloc, b]

end

end InteropGen

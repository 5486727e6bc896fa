import InteropGen.Proofs.Bodies

/-!
# Allocations and their record

Where generated code allocates native memory and what it does with the handle, as properties of the
statements.

* `Expr.isQuiet` — nothing in the expression allocates, frees, or changes the release list;
* `Recorded` — every allocation of a body is assigned, and the next statement enters the handle in
  the release list; all else is quiet;
* `Target.toNative_recorded` — so it is in `ToNative`; the other conversions, the constructor and the
  wire codec are quiet, and so is a release after its first two statements.
-/

set_option autoImplicit false

namespace InteropGen.CSharp

mutual

/-- No call in the expression allocates or frees native memory, or adds to the release list or
clears it. -/
@[simp] def Expr.isQuiet : Expr → Bool
  | .var _ | .field _ _ | .spelled _ | .nat _ | .constant _ | .defaultOf _ | .newArray _ _ _ => true
  | .paren e | .listCount e | .arrayLength e | .byRef e => e.isQuiet
  | .cast _ e | .uncheckedCast _ e => e.isQuiet
  | .index base indices => base.isQuiet && allQuiet indices
  | .binary _ left right => left.isQuiet && right.isQuiet
  | .sum terms => allQuiet terms
  | .conditional condition whenTrue whenFalse =>
    condition.isQuiet && whenTrue.isQuiet && whenFalse.isQuiet
  | .call f arguments => !f.allocates && f != .freeHGlobal && allQuiet arguments
  | .invoke (.var .toRelease) .add _ | .invoke (.var .toRelease) .clear _ => false
  | .invoke receiver _ arguments => receiver.isQuiet && allQuiet arguments
  | .newObject _ arguments => allQuiet arguments

@[simp] def allQuiet : List Expr → Bool
  | [] => true
  | e :: es => e.isQuiet && allQuiet es

end

mutual

/-- Every expression of the statement is quiet. -/
@[simp] def Stmt.isQuiet : Stmt → Bool
  | .assign place value => place.isQuiet && value.isQuiet
  | .declare _ _ value => value.isQuiet
  | .run call => call.isQuiet
  | .block body => bodyQuiet body
  | .countUp _ bound body => bound.isQuiet && bodyQuiet body
  | .when condition body => condition.isQuiet && bodyQuiet body
  | .forEach _ _ list body => list.isQuiet && bodyQuiet body

@[simp] def bodyQuiet : List Stmt → Bool
  | [] => true
  | s :: rest => s.isQuiet && bodyQuiet rest

end

/-- The entry of a handle in the release list. -/
def entryOf (handle : Expr) : Stmt :=
  .run (.invoke (.var .toRelease) .add [handle])

/-- Allocating calls are the right sides of assignments, each followed in its block by the entry of
the place that was assigned. There are no other entries, no frees, and the list is not cleared. -/
inductive Recorded : List Stmt → Prop
  | nil : Recorded []
  | quiet (s : Stmt) (rest : List Stmt) (hs : s.isQuiet = true) (hrest : Recorded rest) :
      Recorded (s :: rest)
  | assign (place : Expr) (f : Function) (arguments : List Expr) (rest : List Stmt)
      (hplace : place.isQuiet = true) (hf : f.allocates = true)
      (harguments : allQuiet arguments = true) (hrest : Recorded rest) :
      Recorded (.assign place (.call f arguments) :: entryOf place :: rest)
  | declare (type : Ty) (name : Local) (f : Function) (arguments : List Expr) (rest : List Stmt)
      (hf : f.allocates = true) (harguments : allQuiet arguments = true) (hrest : Recorded rest) :
      Recorded (.declare type name (.call f arguments) :: entryOf (.var name) :: rest)
  | block (body rest : List Stmt) (hbody : Recorded body) (hrest : Recorded rest) :
      Recorded (.block body :: rest)
  | countUp (depth : Nat) (bound : Expr) (body rest : List Stmt) (hbound : bound.isQuiet = true)
      (hbody : Recorded body) (hrest : Recorded rest) :
      Recorded (.countUp depth bound body :: rest)
  | when (condition : Expr) (body rest : List Stmt) (hcondition : condition.isQuiet = true)
      (hbody : Recorded body) (hrest : Recorded rest) : Recorded (.when condition body :: rest)

theorem bodyQuiet_append (a b : List Stmt) :
    bodyQuiet (a ++ b) = (bodyQuiet a && bodyQuiet b) := by
  induction a with
  | nil => simp
  | cons s rest ih => simp [ih, Bool.and_assoc]

theorem bodyQuiet_flatMap {α : Type} (items : List α) (body : α → List Stmt)
    (h : ∀ item ∈ items, bodyQuiet (body item) = true) :
    bodyQuiet (items.flatMap body) = true := by
  induction items with
  | nil => rfl
  | cons item rest ih =>
    obtain ⟨hitem, hrest⟩ := List.forall_mem_cons.mp h
    rw [List.flatMap_cons, bodyQuiet_append, hitem, ih hrest]
    rfl

theorem Recorded.append {a b : List Stmt} (ha : Recorded a) (hb : Recorded b) :
    Recorded (a ++ b) := by
  induction ha with
  | nil => exact hb
  | quiet s rest hs _ ih => exact .quiet s _ hs ih
  | assign place f arguments rest hplace hf harguments _ ih =>
    exact .assign place f arguments _ hplace hf harguments ih
  | declare type name f arguments rest hf harguments _ ih =>
    exact .declare type name f arguments _ hf harguments ih
  | block body rest hbody _ _ ih => exact .block body _ hbody ih
  | countUp depth bound body rest hbound hbody _ _ ih =>
    exact .countUp depth bound body _ hbound hbody ih
  | when condition body rest hcondition hbody _ _ ih =>
    exact .when condition body _ hcondition hbody ih

theorem Recorded.of_bodyQuiet {body : List Stmt} (h : bodyQuiet body = true) : Recorded body := by
  induction body with
  | nil => exact .nil
  | cons s rest ih =>
    rw [bodyQuiet, Bool.and_eq_true] at h
    exact .quiet s rest h.1 (ih h.2)

theorem Recorded.flatMap {α : Type} (items : List α) (body : α → List Stmt)
    (h : ∀ item ∈ items, Recorded (body item)) : Recorded (items.flatMap body) := by
  induction items with
  | nil => exact .nil
  | cons item rest ih =>
    obtain ⟨hitem, hrest⟩ := List.forall_mem_cons.mp h
    exact hitem.append (ih hrest)

theorem allQuiet_append (a b : List Expr) : allQuiet (a ++ b) = (allQuiet a && allQuiet b) := by
  induction a with
  | nil => simp
  | cons e es ih => simp [ih, Bool.and_assoc]

end InteropGen.CSharp

namespace InteropGen

open CSharp

/-! ### Places, loops and scalars -/

theorem jaggedAccess_quiet (base : Expr) (indices : List Expr) (hbase : base.isQuiet = true)
    (hindices : allQuiet indices = true) : (jaggedAccess base indices).isQuiet = true := by
  induction indices generalizing base with
  | nil => exact hbase
  | cons i rest ih =>
    rw [allQuiet, Bool.and_eq_true] at hindices
    exact ih _ (by simp [hbase, hindices.1]) hindices.2

theorem elementAt_quiet (layout : Layout) (base : Expr) (indices : List Expr)
    (hbase : base.isQuiet = true) (hindices : allQuiet indices = true) :
    (layout.elementAt base indices).isQuiet = true := by
  cases layout with
  | rectangular => simp [Layout.elementAt, hbase, hindices]
  | jagged => exact jaggedAccess_quiet base indices hbase hindices

theorem flatIndex_quiet (dims : List Nat) (indices : List Expr) (h : allQuiet indices = true) :
    (flatIndex dims indices).isQuiet = true := by
  rw [flatIndex, Expr.isQuiet]
  generalize strides dims = weights
  induction indices generalizing weights with
  | nil => cases weights <;> rfl
  | cons i rest ih =>
    rw [allQuiet, Bool.and_eq_true] at h
    cases weights with
    | nil => rfl
    | cons weight more =>
      have hterm : (weighted weight i).isQuiet = true := by
        unfold weighted
        split
        · exact h.1
        · simp [h.1]
      rw [List.zipWith_cons_cons, allQuiet, hterm, ih h.2 more]
      rfl

theorem slotOffset_quiet (dims : List Nat) (indices : List Expr) (h : allQuiet indices = true) :
    (slotOffset dims indices).isQuiet = true := by
  simp [slotOffset, flatIndex_quiet dims indices h]

/-- A nest around bodies that are recorded. -/
theorem loopNest_recorded (depth : Nat) (dims : List Nat) (body : List Expr → List Stmt)
    (hbody : ∀ indices, allQuiet indices = true → Recorded (body indices)) :
    Recorded (loopNest depth dims none body) := by
  have hnest : ∀ depth outer, allQuiet outer = true →
      Recorded (loopNestFrom none body depth outer dims) := by
    induction dims with
    | nil => exact fun depth outer houter => hbody outer houter
    | cons d rest ih =>
      intro depth outer houter
      have hcounters : allQuiet (outer ++ [counter depth]) = true := by
        simp [allQuiet_append, houter, counter]
      exact .countUp depth (.nat d) _ [] rfl (ih (depth + 1) _ hcounters) .nil
  exact hnest depth [] rfl

theorem row_quiet (rows : Option RowAllocation) (hrows : ∀ r ∈ rows, r.array.isQuiet = true)
    (indices : List Expr) (hindices : allQuiet indices = true) :
    bodyQuiet (RowAllocation.atLevel rows indices) = true := by
  cases rows with
  | none => rfl
  | some r =>
    have hrow := jaggedAccess_quiet r.array indices (hrows r rfl) hindices
    simp only [RowAllocation.atLevel]
    split
    · simp [RowAllocation.row, hrow]
    · rfl

/-- A nest around quiet bodies, with or without row allocations. -/
theorem loopNest_quiet (depth : Nat) (dims : List Nat) (rows : Option RowAllocation)
    (hrows : ∀ r ∈ rows, r.array.isQuiet = true) (body : List Expr → List Stmt)
    (hbody : ∀ indices, allQuiet indices = true → bodyQuiet (body indices) = true) :
    bodyQuiet (loopNest depth dims rows body) = true := by
  have hnest : ∀ depth outer, allQuiet outer = true →
      bodyQuiet (loopNestFrom rows body depth outer dims) = true := by
    induction dims with
    | nil => exact fun depth outer houter => hbody outer houter
    | cons d rest ih =>
      intro depth outer houter
      have hcounters : allQuiet (outer ++ [counter depth]) = true := by
        simp [allQuiet_append, houter, counter]
      simp [loopNestFrom, bodyQuiet_append, row_quiet rows hrows _ hcounters, ih (depth + 1) _ hcounters]
  exact hnest depth [] rfl

theorem rows?_quiet (layout : Layout) (array : Expr) (elementType : Ty) (dims : List Nat)
    (harray : array.isQuiet = true) :
    ∀ r ∈ layout.rows? array elementType dims, r.array.isQuiet = true := by
  intro r hr
  unfold Layout.rows? at hr
  split at hr
  · cases hr
    exact harray
  · cases hr

theorem allRows_quiet (layout : Layout) (depth : Nat) (array : Expr) (elementType : Ty)
    (dims : List Nat) (harray : array.isQuiet = true) :
    bodyQuiet ((layout.rows? array elementType dims).elim [] (allRows depth)) = true := by
  have hrows := rows?_quiet layout array elementType dims harray
  cases h : layout.rows? array elementType dims with
  | none => rfl
  | some r =>
    rw [h] at hrows
    rw [Option.elim_some]
    unfold allRows
    split
    · rfl
    · exact loopNest_quiet depth _ _ hrows _ fun _ _ => rfl

theorem primitiveToTransfer_quiet (platform : Platform) (kind : PrimitiveKind) (x : Expr)
    (hx : x.isQuiet = true) : (platform.primitiveToTransfer kind x).isQuiet = true := by
  cases kind with
  | longdouble => exact hx
  | wchar => cases platform <;> exact hx
  | _ => exact hx

theorem primitiveFromTransfer_quiet (platform : Platform) (kind : PrimitiveKind) (x : Expr)
    (hx : x.isQuiet = true) : (platform.primitiveFromTransfer kind x).isQuiet = true := by
  cases kind with
  | longdouble => exact hx
  | wchar => cases platform <;> exact hx
  | _ => exact hx

theorem stringFromNative_quiet (platform : Platform) (kind : StringKind) (x : Expr)
    (hx : x.isQuiet = true) : (platform.stringFromNative kind x).isQuiet = true := by
  simp [Platform.stringFromNative, hx, Function.allocates]

theorem encode_quiet (coding : SlotCoding) (x : Expr) (hx : x.isQuiet = true) :
    (coding.encode x).isQuiet = true := by
  cases coding <;> simp [SlotCoding.encode, hx, Function.allocates]

theorem decode_quiet (coding : SlotCoding) (x : Expr) (hx : x.isQuiet = true) :
    (coding.decode x).isQuiet = true := by
  cases coding <;> simp [SlotCoding.decode, hx, Function.allocates]

theorem slotWrite_quiet (slot : Slot) (pointer offset value : Expr)
    (hpointer : pointer.isQuiet = true) (hoffset : offset.isQuiet = true)
    (hvalue : value.isQuiet = true) : (slot.write pointer offset value).isQuiet = true := by
  cases slot with
  | integer size word coding =>
    have hcoded := encode_quiet coding value hvalue
    simp [Slot.write, hpointer, hoffset, hcoded, Function.allocates]
  | transferStruct type =>
    simp [Slot.write, hpointer, hoffset, hvalue, Function.allocates]

theorem slotRead_quiet (slot : Slot) (pointer offset : Expr) (hpointer : pointer.isQuiet = true)
    (hoffset : offset.isQuiet = true) : (slot.read pointer offset).isQuiet = true := by
  cases slot with
  | integer size word coding =>
    refine decode_quiet coding _ ?_
    simp [hpointer, hoffset, Function.allocates]
  | transferStruct type =>
    simp [Slot.read, hpointer, hoffset, Function.allocates]

theorem slotSize_quiet (t : Target) (e : Element) : (t.slot e).size.isQuiet = true := by
  cases e with
  | primitive kind =>
    cases kind <;> simp [Target.slot, Platform.primitiveSlot, Slot.size]
    cases t.platform <;> rfl
  | _ => rfl

theorem arrayAllocation_quiet (layout : Layout) (element : Ty) (dims : List Nat) :
    (layout.arrayAllocation element dims).isQuiet = true := by
  cases layout <;> rfl

theorem listAllocation_quiet (element : Ty) (maxBound : Nat) :
    (listAllocation element maxBound).isQuiet = true := by
  unfold listAllocation
  split <;> rfl

/-! ### Conversions of one field -/

@[simp] theorem FieldView.value_quiet (f : FieldView) : f.value.isQuiet = true := rfl

@[simp] theorem FieldView.native_quiet (f : FieldView) : f.native.isQuiet = true := rfl

namespace Target

variable (t : Target) (depth : Nat) (f : FieldView)

theorem storeString_recorded (kind : StringKind) (place value : Expr)
    (hplace : place.isQuiet = true) (hvalue : value.isQuiet = true) :
    Recorded (t.storeString kind place value) :=
  .assign place _ _ [] hplace rfl (by simp [hvalue]) .nil

theorem convertStruct_quiet (value place : Expr) (hvalue : value.isQuiet = true)
    (hplace : place.isQuiet = true) : (convertStruct value place).isQuiet = true := by
  simp [convertStruct, hvalue, hplace]

theorem readStruct_quiet (s : StructType) (place native : Expr) (hplace : place.isQuiet = true)
    (hnative : native.isQuiet = true) : bodyQuiet (readStruct s place native) = true := by
  simp [readStruct, hplace, hnative]

theorem elementToNative_recorded (e : Element) (value place : Expr) (hvalue : value.isQuiet = true)
    (hplace : place.isQuiet = true) : Recorded (t.elementToNative e value place) := by
  cases e with
  | primitive kind =>
    have hcast := primitiveToTransfer_quiet t.platform kind value hvalue
    exact .quiet _ [] (by simp [hplace, hcast]) .nil
  | string kind => exact t.storeString_recorded kind place value hplace hvalue
  | enum en =>
    exact .quiet _ [] (by simp [hplace, enumToTransfer, hvalue]) .nil
  | struct s => exact .quiet _ [] (convertStruct_quiet value place hvalue hplace) .nil

theorem storeInSlot_recorded (e : Element) (buffer offset value : Expr)
    (hbuffer : buffer.isQuiet = true) (hoffset : offset.isQuiet = true)
    (hvalue : value.isQuiet = true) : Recorded (t.storeInSlot e buffer offset value) := by
  have hwrite : ∀ x : Expr, x.isQuiet = true →
      Recorded [.run ((t.slot e).write buffer offset x)] := fun x hx =>
    .quiet _ [] (slotWrite_quiet _ buffer offset x hbuffer hoffset hx) .nil
  cases e with
  | primitive kind => exact hwrite value hvalue
  | enum en => exact hwrite value hvalue
  | string kind =>
    exact .declare .intPtr .text _ _ _ rfl (by simp [hvalue])
      (hwrite (.var .text) rfl)
  | struct s =>
    exact .quiet _ _ rfl (.quiet _ _ (convertStruct_quiet value _ hvalue rfl)
      (hwrite (.var .element) rfl))

theorem inlineArrayToNative_recorded (e : Element) (dims : List Nat) (length : Nat) :
    Recorded (t.inlineArrayToNative depth f e dims length) := by
  unfold inlineArrayToNative
  split
  · exact Recorded.of_bodyQuiet rfl
  · refine .quiet _ _ rfl (loopNest_recorded depth dims _ ?_)
    intro indices hindices
    refine t.elementToNative_recorded e _ _ (elementAt_quiet _ _ _ rfl hindices) ?_
    simp [flatIndex_quiet dims indices hindices]

theorem allocate_recorded (place bytes : Expr) (rest : List Stmt) (hplace : place.isQuiet = true)
    (hbytes : bytes.isQuiet = true) (hrest : Recorded rest) :
    Recorded (allocate place bytes ++ rest) :=
  .assign place _ _ rest hplace rfl (by simp [hbytes]) hrest

theorem outOfLineArrayToNative_recorded (e : Element) (dims : List Nat) (length : Nat) :
    Recorded (t.outOfLineArrayToNative depth f e dims length) := by
  refine .block _ [] (.quiet _ _ ?_ ?_) .nil
  · simp [slotSize_quiet]
  · refine allocate_recorded _ _ _ rfl rfl (loopNest_recorded depth dims _ ?_)
    intro indices hindices
    exact t.storeInSlot_recorded e _ _ _ rfl (slotOffset_quiet dims indices hindices)
      (elementAt_quiet _ _ _ rfl hindices)

theorem sequenceToNative_recorded (e : Element) (maxBound : Nat) :
    Recorded (t.sequenceToNative depth f e maxBound) := by
  have hbounded : (bounded (.listCount f.value) maxBound).isQuiet = true := by
    unfold bounded
    split <;> rfl
  have hslots : Recorded (t.storeInSlot e f.native (sequenceOffset (counter depth))
      (.index f.value [counter depth])) :=
    t.storeInSlot_recorded e _ _ _ rfl
      (by simp [sequenceOffset, counter])
      (by simp [counter])
  have hwrite : (Stmt.run (.call (.write .int32) [f.native, .nat 0, .var .count])).isQuiet = true := by
    simp [Function.allocates]
  have hbytes : (Expr.sum [.constant .sizeOfInt, .binary .times (.var .count) (.var .size)]).isQuiet =
      true := by
    simp
  refine .block _ [] ?_ .nil
  refine .quiet _ _ (by simp [hbounded]) ?_
  refine .quiet _ _ (by simp [slotSize_quiet]) ?_
  refine allocate_recorded f.native _ _ (by simp) hbytes ?_
  exact .quiet _ _ hwrite (.countUp depth _ _ [] (by simp) hslots .nil)

/-- What a field writes into `ToNative`. -/
theorem toNative_recorded (h : f.shape.Transferable t.layout) :
    Recorded (t.toNative depth f).stmts := by
  rcases h.cases with ⟨e, hshape⟩ | ⟨e, dims, hshape, valid⟩ | ⟨e, maxBound, hshape, hbridges⟩
  · rw [t.toNative_element depth f e hshape]
    exact t.elementToNative_recorded e _ _ rfl rfl
  · rw [t.toNative_array depth f e dims hshape valid]
    cases e.transfer dims with
    | inline length => exact t.inlineArrayToNative_recorded depth f e dims length
    | outOfLine length => exact t.outOfLineArrayToNative_recorded depth f e dims length
  · rw [t.toNative_sequence depth f e maxBound hshape hbridges]
    exact t.sequenceToNative_recorded depth f e maxBound

theorem elementFromNative_quiet (e : Element) (place native : Expr) (hplace : place.isQuiet = true)
    (hnative : native.isQuiet = true) : bodyQuiet (t.elementFromNative e place native) = true := by
  cases e with
  | primitive kind =>
    have hcast := primitiveFromTransfer_quiet t.platform kind native hnative
    simp [elementFromNative, hplace, hcast]
  | string kind =>
    have htext := stringFromNative_quiet t.platform kind native hnative
    simp [elementFromNative, hplace, htext]
  | enum en =>
    simp [elementFromNative, enumFromTransfer, hplace, hnative]
  | struct s => exact readStruct_quiet s place native hplace hnative

theorem loadFromSlot_quiet (e : Element) (buffer offset : Expr) (use : Expr → Stmt)
    (hbuffer : buffer.isQuiet = true) (hoffset : offset.isQuiet = true)
    (huse : ∀ x, x.isQuiet = true → (use x).isQuiet = true) :
    bodyQuiet (t.loadFromSlot e buffer offset use) = true := by
  have hread := slotRead_quiet (t.slot e) buffer offset hbuffer hoffset
  cases e with
  | primitive kind => simp [loadFromSlot, stageFromNative, huse _ hread]
  | enum en => simp [loadFromSlot, stageFromNative, huse _ hread]
  | string kind =>
    have htext := stringFromNative_quiet t.platform kind (.var .text) rfl
    simp [loadFromSlot, stageFromNative, hread, huse _ htext]
  | struct s =>
    simp [loadFromSlot, stageFromNative, hread, huse (.var .element) rfl]

theorem inlineArrayFromNative_quiet (e : Element) (dims : List Nat) (length : Nat) :
    bodyQuiet (t.inlineArrayFromNative depth f e dims length) = true := by
  unfold inlineArrayFromNative
  split
  · rfl
  · refine loopNest_quiet depth dims _ (rows?_quiet _ _ _ _ rfl) _ ?_
    intro indices hindices
    refine t.elementFromNative_quiet e _ _ (elementAt_quiet _ _ _ rfl hindices) ?_
    simp [flatIndex_quiet dims indices hindices]

theorem outOfLineArrayFromNative_quiet (e : Element) (dims : List Nat) :
    bodyQuiet (t.outOfLineArrayFromNative depth f e dims) = true := by
  have hloads : bodyQuiet (loopNest depth dims none fun indices =>
      t.loadFromSlot e f.native (slotOffset dims indices) fun staged =>
        .assign (t.layout.elementAt f.value indices) staged) = true := by
    refine loopNest_quiet depth dims none (by simp) _ ?_
    intro indices hindices
    refine t.loadFromSlot_quiet e _ _ _ rfl (slotOffset_quiet dims indices hindices) ?_
    intro x hx
    simp [elementAt_quiet t.layout f.value indices rfl hindices, hx]
  have hrows := allRows_quiet t.layout depth f.value e.valueType dims rfl
  have hguarded : bodyQuiet [.when (isHandle f.native) (.declare (.builtin .int) .size
      (t.slot e).size :: loopNest depth dims none fun indices =>
        t.loadFromSlot e f.native (slotOffset dims indices) fun staged =>
          .assign (t.layout.elementAt f.value indices) staged)] = true := by
    simp [isHandle, slotSize_quiet, hloads]
  rw [outOfLineArrayFromNative, bodyQuiet_append, hrows, hguarded]
  rfl

theorem sequenceFromNative_quiet (e : Element) (maxBound : Nat) (fresh : Expr)
    (hfresh : fresh.isQuiet = true) :
    bodyQuiet (t.sequenceFromNative depth f e maxBound fresh) = true := by
  have hcount : (bounded (.call (.read .int32) [f.native, .nat 0]) maxBound).isQuiet = true := by
    unfold bounded
    split <;> rfl
  have hloads : bodyQuiet (t.loadFromSlot e f.native (sequenceOffset (counter depth)) fun staged =>
      .run (.invoke f.value .add [staged])) = true := by
    refine t.loadFromSlot_quiet e _ _ _ rfl rfl ?_
    intro x hx
    simp [FieldView.value, hx]
  simp [sequenceFromNative, isHandle, slotSize_quiet, hfresh, countedLoop, hcount, hloads]

/-- What a field writes into `FromNative`. -/
theorem fromNative_quiet (h : f.shape.Transferable t.layout) :
    bodyQuiet (t.fromNative depth f).stmts = true := by
  rcases h.cases with ⟨e, hshape⟩ | ⟨e, dims, hshape, valid⟩ | ⟨e, maxBound, hshape, hbridges⟩
  · rw [t.fromNative_element depth f e hshape]
    exact t.elementFromNative_quiet e _ _ rfl rfl
  · rw [t.fromNative_array depth f e dims hshape valid, bodyQuiet, Stmt.isQuiet,
      arrayAllocation_quiet]
    cases e.transfer dims with
    | inline length => exact t.inlineArrayFromNative_quiet depth f e dims length
    | outOfLine length => exact t.outOfLineArrayFromNative_quiet depth f e dims
  · rw [t.fromNative_sequence depth f e maxBound hshape hbridges]
    exact t.sequenceFromNative_quiet depth f e maxBound _ (listAllocation_quiet _ _)

/-- What a property writes into the constructor. -/
theorem initial_quiet (h : f.shape.Transferable t.layout) :
    bodyQuiet (t.initial depth f).stmts = true := by
  have hfirst : ∀ e : Element, e.initialValue.isQuiet = true := by
    intro e
    cases e with
    | primitive kind => cases kind <;> rfl
    | _ => rfl
  rcases h.cases with ⟨e, hshape⟩ | ⟨e, dims, hshape, valid⟩ | ⟨e, maxBound, hshape, _⟩
  · rw [t.initial_element depth f e hshape]
    simp [hfirst]
  · rw [t.initial_array depth f e dims hshape valid, bodyQuiet, Stmt.isQuiet, arrayAllocation_quiet]
    have hfill : bodyQuiet (t.fillArray depth f e dims) = true := by
      unfold fillArray
      cases hfill : e.fill? with
      | none => exact allRows_quiet _ _ _ _ _ rfl
      | some fill =>
        refine loopNest_quiet depth dims _ (rows?_quiet _ _ _ _ rfl) _ ?_
        intro indices hindices
        obtain rfl : fill = e.initialValue := by
          cases e <;> cases hfill <;> rfl
        simp [elementAt_quiet t.layout f.value indices rfl hindices, hfirst]
    split
    · exact hfill
    · rfl
  · rw [t.initial_sequence depth f e maxBound hshape]
    simp [listAllocation_quiet]

/-- What a field writes into `ReleaseNative`, after the memory was freed. -/
theorem releaseNative_quiet (h : f.shape.Transferable t.layout) :
    bodyQuiet (InteropGen.releaseNative depth f).stmts = true := by
  rcases h.cases with ⟨e, hshape⟩ | ⟨e, dims, hshape, valid⟩ | ⟨e, maxBound, hshape, _⟩
  · rw [release_element depth f e hshape]
    cases e <;> rfl
  · rw [release_array depth f e dims hshape valid]
    cases e.transfer dims <;> cases e <;> rfl
  · rw [release_sequence depth f e maxBound hshape]
    rfl

/-- What a field writes into `Encode`. -/
theorem encode_quiet (h : f.shape.Encodable) : bodyQuiet (t.encode depth f).stmts = true := by
  have hargument : ∀ maxBound, allQuiet (boundArgument maxBound) = true := by
    intro maxBound
    unfold boundArgument
    split <;> rfl
  rcases h.cases with ⟨e, tag, hshape, htag⟩ | ⟨en, hshape⟩ | ⟨e, tag, dims, hshape, htag, valid⟩ |
    ⟨e, tag, maxBound, hshape, htag⟩
  · rw [t.encode_scalar depth f e tag hshape htag]
    rfl
  · rw [t.encode_enum depth f en hshape]
    rfl
  · rw [t.encode_array depth f e tag dims hshape htag valid]
    unfold encodeArray
    split
    · refine loopNest_quiet depth dims none (by simp) _ ?_
      intro indices hindices
      simp [writeCall, elementAt_quiet t.layout f.value indices rfl hindices]
    · rfl
  · rw [t.encode_sequence depth f e tag maxBound hshape htag]
    simp [writeCall, hargument]

/-- What a field writes into `Decode`. -/
theorem decode_quiet (h : f.shape.Encodable) : bodyQuiet (t.decode depth f).stmts = true := by
  have hargument : ∀ maxBound, allQuiet (boundArgument maxBound) = true := by
    intro maxBound
    unfold boundArgument
    split <;> rfl
  rcases h.cases with ⟨e, tag, hshape, htag⟩ | ⟨en, hshape⟩ | ⟨e, tag, dims, hshape, htag, valid⟩ |
    ⟨e, tag, maxBound, hshape, htag⟩
  · rw [t.decode_scalar depth f e tag hshape htag]
    rfl
  · rw [t.decode_enum depth f en hshape]
    rfl
  · rw [t.decode_array depth f e tag dims hshape htag valid]
    unfold decodeArray
    split
    · rw [bodyQuiet, Stmt.isQuiet, arrayAllocation_quiet]
      refine loopNest_quiet depth dims _ (rows?_quiet _ _ _ _ rfl) _ ?_
      intro indices hindices
      simp [readCall, elementAt_quiet t.layout f.value indices rfl hindices]
    · rfl
  · rw [t.decode_sequence depth f e tag maxBound hshape htag]
    simp [readCall, hargument]

end Target

end InteropGen

import InteropGen.Proofs.Blocks.Fragments

/-!
# How statements begin

Every statement that a field produces begins with a variable, a field of one of the two objects or a
function. No names have to be known for that, only where the conversions put their places.

* `loopNest_anchored` — a nest begins as its bodies and row allocations do;
* `Target.toNative_anchored` and its like — one field in one method.
-/

set_option autoImplicit false

namespace InteropGen

open CSharp

/-! ### Places and loops -/

theorem jaggedAccess_anchored {base : Expr} (h : base.Anchored) (indices : List Expr) :
    (jaggedAccess base indices).Anchored := by
  induction indices generalizing base with
  | nil => exact h
  | cons i rest ih => exact ih h

theorem elementAt_anchored (layout : Layout) {base : Expr} (h : base.Anchored)
    (indices : List Expr) : (layout.elementAt base indices).Anchored := by
  cases layout with
  | rectangular => exact h
  | jagged => exact jaggedAccess_anchored h indices

/-- The rows that are allocated belong to a place. -/
def RowsAnchored (rows : Option RowAllocation) : Prop :=
  ∀ r ∈ rows, r.array.Anchored

theorem rowsAnchored_none : RowsAnchored none := nofun

theorem rows?_anchored (layout : Layout) {array : Expr} (h : array.Anchored) (elementType : Ty)
    (dims : List Nat) : RowsAnchored (layout.rows? array elementType dims) := by
  intro r hr
  unfold Layout.rows? at hr
  split at hr
  · cases hr
    exact h
  · cases hr

theorem row_anchored {rows : Option RowAllocation} (h : RowsAnchored rows) (indices : List Expr) :
    BodyAnchored (RowAllocation.atLevel rows indices) := by
  cases rows with
  | none => trivial
  | some r =>
    simp only [RowAllocation.atLevel]
    split
    · exact ⟨jaggedAccess_anchored (h r rfl) indices, trivial⟩
    · trivial

theorem loopNest_anchored (depth : Nat) (dims : List Nat) {rows : Option RowAllocation}
    (hrows : RowsAnchored rows) {body : List Expr → List Stmt}
    (hbody : ∀ indices, BodyAnchored (body indices)) :
    BodyAnchored (loopNest depth dims rows body) := by
  have hnest : ∀ depth outer, BodyAnchored (loopNestFrom rows body depth outer dims) := by
    induction dims with
    | nil => exact fun depth outer => hbody outer
    | cons d rest ih =>
      intro depth outer
      exact ⟨(bodyAnchored_append _ _).mpr ⟨row_anchored hrows _, ih (depth + 1) _⟩, trivial⟩
  exact hnest depth []

theorem allRows_anchored (depth : Nat) {rows : Option RowAllocation} (h : RowsAnchored rows) :
    BodyAnchored (rows.elim [] (allRows depth)) := by
  cases rows with
  | none => trivial
  | some r =>
    rw [Option.elim_some]
    unfold allRows
    split
    · trivial
    · exact loopNest_anchored depth _ h fun _ => trivial

/-- The two places of a field are fields of the two objects. -/
theorem FieldView.value_anchored (f : FieldView) : f.value.Anchored := trivial

theorem FieldView.native_anchored (f : FieldView) : f.native.Anchored := trivial

namespace Target

variable (t : Target) (e : Element)

/-! ### Elements -/

theorem elementToNative_anchored {value place : Expr} (hvalue : value.Anchored)
    (hplace : place.Anchored) : BodyAnchored (t.elementToNative e value place) := by
  cases e <;> simp [elementToNative, storeString, convertStruct, hvalue, hplace]

theorem slotWrite_anchored (slot : Slot) (pointer offset value : Expr) :
    (slot.write pointer offset value).Anchored := by
  cases slot <;> trivial

theorem storeInSlot_anchored (buffer offset : Expr) {value : Expr} (hvalue : value.Anchored) :
    BodyAnchored (t.storeInSlot e buffer offset value) := by
  have hwrite := fun x => slotWrite_anchored (t.slot e) buffer offset x
  cases e <;> simp [storeInSlot, stageToNative, convertStruct, hvalue, hwrite]

theorem elementFromNative_anchored {place : Expr} (hplace : place.Anchored) (native : Expr) :
    BodyAnchored (t.elementFromNative e place native) := by
  cases e <;> simp [elementFromNative, readStruct, hplace]

theorem loadFromSlot_anchored (buffer offset : Expr) {use : Expr → Stmt}
    (huse : ∀ x, (use x).Anchored) : BodyAnchored (t.loadFromSlot e buffer offset use) := by
  cases e <;> simp [loadFromSlot, stageFromNative, huse]

/-! ### Fields -/

variable (depth : Nat) (f : FieldView)

theorem inlineArrayToNative_anchored (dims : List Nat) (length : Nat) :
    BodyAnchored (t.inlineArrayToNative depth f e dims length) := by
  unfold inlineArrayToNative
  split
  · exact ⟨f.native_anchored, trivial, trivial⟩
  · exact ⟨f.native_anchored, loopNest_anchored depth dims rowsAnchored_none fun indices =>
      t.elementToNative_anchored e (elementAt_anchored _ f.value_anchored indices)
        f.native_anchored⟩

theorem outOfLineArrayToNative_anchored (dims : List Nat) (length : Nat) :
    BodyAnchored (t.outOfLineArrayToNative depth f e dims length) := by
  have hslots : BodyAnchored (loopNest depth dims none fun indices =>
      t.storeInSlot e f.native (slotOffset dims indices) (t.layout.elementAt f.value indices)) :=
    loopNest_anchored depth dims rowsAnchored_none fun indices =>
      t.storeInSlot_anchored e _ _ (elementAt_anchored _ f.value_anchored indices)
  simp [outOfLineArrayToNative, allocate, f.native_anchored, hslots]

theorem sequenceToNative_anchored (maxBound : Nat) :
    BodyAnchored (t.sequenceToNative depth f e maxBound) := by
  have hslots := t.storeInSlot_anchored e f.native (sequenceOffset (counter depth))
    (show (Expr.index f.value [counter depth]).Anchored from f.value_anchored)
  simp [sequenceToNative, allocate, countedLoop, f.native_anchored, hslots]

/-- How a field begins its statements in `ToNative`. -/
theorem toNative_anchored (h : f.shape.Transferable t.layout) :
    BodyAnchored (t.toNative depth f).stmts := by
  obtain ⟨e, hshape⟩ | ⟨e, dims, hshape, valid⟩ | ⟨e, maxBound, hshape, bridges⟩ := h.cases
  · rw [t.toNative_element depth f e hshape]
    exact t.elementToNative_anchored e f.value_anchored f.native_anchored
  · rw [t.toNative_array depth f e dims hshape valid]
    cases e.transfer dims with
    | inline length => exact t.inlineArrayToNative_anchored e depth f dims length
    | outOfLine length => exact t.outOfLineArrayToNative_anchored e depth f dims length
  · rw [t.toNative_sequence depth f e maxBound hshape bridges]
    exact t.sequenceToNative_anchored e depth f maxBound

theorem inlineArrayFromNative_anchored (dims : List Nat) (length : Nat) :
    BodyAnchored (t.inlineArrayFromNative depth f e dims length) := by
  unfold inlineArrayFromNative
  split
  · exact ⟨trivial, trivial⟩
  · exact loopNest_anchored depth dims (rows?_anchored _ f.value_anchored _ _) fun indices =>
      t.elementFromNative_anchored e (elementAt_anchored _ f.value_anchored indices) _

theorem outOfLineArrayFromNative_anchored (dims : List Nat) :
    BodyAnchored (t.outOfLineArrayFromNative depth f e dims) := by
  have hslots : BodyAnchored (loopNest depth dims none fun indices =>
      t.loadFromSlot e f.native (slotOffset dims indices) fun staged =>
        .assign (t.layout.elementAt f.value indices) staged) :=
    loopNest_anchored depth dims rowsAnchored_none fun indices =>
      t.loadFromSlot_anchored e _ _ fun _ => elementAt_anchored _ f.value_anchored indices
  refine (bodyAnchored_append _ _).mpr
    ⟨allRows_anchored depth (rows?_anchored _ f.value_anchored _ _), ?_⟩
  simp [hslots]

theorem sequenceFromNative_anchored (maxBound : Nat) (fresh : Expr) :
    BodyAnchored (t.sequenceFromNative depth f e maxBound fresh) := by
  have hslots := t.loadFromSlot_anchored e f.native (sequenceOffset (counter depth))
    fun staged => show (Stmt.run (.invoke f.value .add [staged])).Anchored from f.value_anchored
  simp [sequenceFromNative, countedLoop, f.value_anchored, hslots]

/-- How a field begins its statements in `FromNative`. -/
theorem fromNative_anchored (h : f.shape.Transferable t.layout) :
    BodyAnchored (t.fromNative depth f).stmts := by
  obtain ⟨e, hshape⟩ | ⟨e, dims, hshape, valid⟩ | ⟨e, maxBound, hshape, bridges⟩ := h.cases
  · rw [t.fromNative_element depth f e hshape]
    exact t.elementFromNative_anchored e f.value_anchored _
  · rw [t.fromNative_array depth f e dims hshape valid]
    refine ⟨f.value_anchored, ?_⟩
    cases e.transfer dims with
    | inline length => exact t.inlineArrayFromNative_anchored e depth f dims length
    | outOfLine length => exact t.outOfLineArrayFromNative_anchored e depth f dims
  · rw [t.fromNative_sequence depth f e maxBound hshape bridges]
    exact t.sequenceFromNative_anchored e depth f maxBound _

/-- How a field begins its statements in the constructor. -/
theorem initial_anchored (h : f.shape.Transferable t.layout) :
    BodyAnchored (t.initial depth f).stmts := by
  obtain ⟨e, hshape⟩ | ⟨e, dims, hshape, valid⟩ | ⟨e, maxBound, hshape, _⟩ := h.cases
  · rw [t.initial_element depth f e hshape]
    exact ⟨f.value_anchored, trivial⟩
  · have hrows := rows?_anchored t.layout f.value_anchored e.valueType dims
    rw [t.initial_array depth f e dims hshape valid]
    refine ⟨f.value_anchored, ?_⟩
    split
    · unfold fillArray
      cases e.fill? with
      | none => exact allRows_anchored depth hrows
      | some fill =>
        exact loopNest_anchored depth dims hrows fun indices =>
          ⟨elementAt_anchored _ f.value_anchored indices, trivial⟩
    · trivial
  · rw [t.initial_sequence depth f e maxBound hshape]
    exact ⟨f.value_anchored, trivial⟩

/-- How a field begins its statements in `ReleaseNative`. -/
theorem releaseNative_anchored (h : f.shape.Transferable t.layout) :
    BodyAnchored (InteropGen.releaseNative depth f).stmts := by
  obtain ⟨e, hshape⟩ | ⟨e, dims, hshape, valid⟩ | ⟨e, maxBound, hshape, _⟩ := h.cases
  · rw [release_element depth f e hshape]
    cases e with
    | string kind => exact ⟨f.native_anchored, trivial⟩
    | struct s => exact ⟨trivial, trivial⟩
    | _ => trivial
  · rw [release_array depth f e dims hshape valid]
    cases e.transfer dims with
    | outOfLine length => exact ⟨f.native_anchored, trivial⟩
    | inline length =>
      cases e with
      | string kind => exact ⟨⟨trivial, trivial⟩, trivial⟩
      | struct s =>
        exact ⟨loopNest_anchored depth [length] rowsAnchored_none fun _ => ⟨trivial, trivial⟩,
          trivial⟩
      | _ => trivial
  · rw [release_sequence depth f e maxBound hshape]
    exact ⟨f.native_anchored, trivial⟩

/-- How a field begins its statements in `Encode`. -/
theorem encode_anchored (h : f.shape.Encodable) : BodyAnchored (t.encode depth f).stmts := by
  obtain ⟨e, tag, hshape, htag⟩ | ⟨en, hshape⟩ | ⟨e, tag, dims, hshape, htag, valid⟩ |
    ⟨e, tag, maxBound, hshape, htag⟩ := h.cases
  · rw [t.encode_scalar depth f e tag hshape htag]
    exact ⟨trivial, trivial⟩
  · rw [t.encode_enum depth f en hshape]
    exact ⟨trivial, trivial⟩
  · rw [t.encode_array depth f e tag dims hshape htag valid]
    unfold encodeArray
    split
    · exact loopNest_anchored depth dims rowsAnchored_none fun _ => ⟨trivial, trivial⟩
    · exact ⟨trivial, trivial⟩
  · rw [t.encode_sequence depth f e tag maxBound hshape htag]
    exact ⟨trivial, trivial⟩

/-- How a field begins its statements in `Decode`. -/
theorem decode_anchored (h : f.shape.Encodable) : BodyAnchored (t.decode depth f).stmts := by
  obtain ⟨e, tag, hshape, htag⟩ | ⟨en, hshape⟩ | ⟨e, tag, dims, hshape, htag, valid⟩ |
    ⟨e, tag, maxBound, hshape, htag⟩ := h.cases
  · rw [t.decode_scalar depth f e tag hshape htag]
    exact ⟨f.value_anchored, trivial⟩
  · rw [t.decode_enum depth f en hshape]
    exact ⟨f.value_anchored, trivial⟩
  · rw [t.decode_array depth f e tag dims hshape htag valid]
    unfold decodeArray
    split
    · exact ⟨f.value_anchored, loopNest_anchored depth dims
        (rows?_anchored _ f.value_anchored _ _) fun indices =>
          ⟨elementAt_anchored _ f.value_anchored indices, trivial⟩⟩
    · exact ⟨f.value_anchored, trivial⟩
  · rw [t.decode_sequence depth f e tag maxBound hshape htag]
    exact ⟨f.value_anchored, trivial⟩

end Target

end InteropGen

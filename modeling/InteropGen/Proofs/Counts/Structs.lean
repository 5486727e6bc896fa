import InteropGen.Proofs.Counts.Parts
import InteropGen.Proofs.Transfer.Compiled

/-!
# The counts of a struct

C# takes every count in generated code as an `int`. The dimensions of an array are checked for that,
and with them everything that is computed from them. The bound of a sequence is not: it is written
as it is declared.

* `Target.toNative_counts` and its like — the numerals of a field, by its shape;
* `structCode_counts_iff` — if all numbers of 32 bits are of a kind, the numerals of a struct are of
  it exactly if the bounds of its sequences are.
-/

set_option autoImplicit false

namespace InteropGen

open CSharp

section
variable {P : Nat → Prop} (small : ∀ n ≤ 2147483647, P n)
include small

theorem ValidDims.dimsCount {dims : List Nat} (valid : ValidDims dims) : DimsCount P dims where
  zero := small 0 (by omega)
  dim d hd := small d (valid.dim_le d hd)
  stride stride hstride := small stride (valid.stride_le stride hstride)
  count := small _ (Nat.le_of_lt_succ valid.count_lt)

theorem Element.initialValue_counts (e : Element) : e.initialValue.Counts P := by
  have hzero := small 0 (by omega)
  cases e with
  | primitive kind => cases kind <;> simp [Element.initialValue, PrimitiveKind.defaultValue, hzero]
  | _ => trivial

theorem slotCoding_encode_counts (coding : SlotCoding) (x : Expr) (hx : x.Counts P) :
    (coding.encode x).Counts P := by
  have hzero := small 0 (by omega)
  have hone := small 1 (by omega)
  cases coding <;> simp [SlotCoding.encode, hx, hzero, hone]

theorem slotCoding_decode_counts (coding : SlotCoding) (x : Expr) (hx : x.Counts P) :
    (coding.decode x).Counts P := by
  have hzero := small 0 (by omega)
  cases coding <;> simp [SlotCoding.decode, hx, hzero]

theorem slotWrite_counts (slot : Slot) (pointer offset value : Expr) (hpointer : pointer.Counts P)
    (hoffset : offset.Counts P) (hvalue : value.Counts P) :
    (slot.write pointer offset value).Counts P := by
  cases slot with
  | integer size word coding =>
    have hcoded := slotCoding_encode_counts small coding value hvalue
    simp [Slot.write, hpointer, hoffset, hcoded]
  | transferStruct type => simp [Slot.write, hpointer, hoffset, hvalue]

theorem slotRead_counts (slot : Slot) (pointer offset : Expr) (hpointer : pointer.Counts P)
    (hoffset : offset.Counts P) : (slot.read pointer offset).Counts P := by
  cases slot with
  | integer size word coding =>
    exact slotCoding_decode_counts small coding _ ⟨hpointer, hoffset, trivial⟩
  | transferStruct type => simp [Slot.read, hpointer, hoffset]

namespace Target

variable (t : Target) (e : Element)

theorem slotSize_counts : (t.slot e).size.Counts P := by
  cases e with
  | primitive kind =>
    cases kind with
    | wchar =>
      simp only [slot, Platform.primitiveSlot]
      split <;> exact small _ (by omega)
    | _ => exact small _ (by omega)
  | _ => trivial

/-! ### Conversions of one field -/

omit small in
theorem elementToNative_counts (value place : Expr) (hvalue : value.Counts P)
    (hplace : place.Counts P) : BodyCounts P (t.elementToNative e value place) := by
  cases e with
  | primitive kind =>
    have hcast := primitiveToTransfer_counts t.platform kind value hvalue
    simp [elementToNative, hplace, hcast]
  | string kind =>
    have htext := stringToNative_counts t.platform kind value hvalue
    simp [elementToNative, storeString, hplace, htext]
  | enum en => simp [elementToNative, enumToTransfer, hplace, hvalue]
  | struct s => simp [elementToNative, convertStruct, hplace, hvalue]

theorem storeInSlot_counts (buffer offset value : Expr) (hbuffer : buffer.Counts P)
    (hoffset : offset.Counts P) (hvalue : value.Counts P) :
    BodyCounts P (t.storeInSlot e buffer offset value) := by
  have hwrite : ∀ x : Expr, x.Counts P → ((t.slot e).write buffer offset x).Counts P :=
    fun x hx => slotWrite_counts small (t.slot e) buffer offset x hbuffer hoffset hx
  cases e with
  | primitive kind => exact ⟨hwrite value hvalue, trivial⟩
  | enum en => exact ⟨hwrite value hvalue, trivial⟩
  | string kind =>
    have htext := stringToNative_counts t.platform kind value hvalue
    have htail := hwrite (.var .text) trivial
    simp [storeInSlot, stageToNative, htext, htail]
  | struct s =>
    have htail := hwrite (.var .element) trivial
    simp [storeInSlot, stageToNative, convertStruct, hvalue, htail]

omit small in
theorem elementFromNative_counts (place native : Expr) (hplace : place.Counts P)
    (hnative : native.Counts P) : BodyCounts P (t.elementFromNative e place native) := by
  cases e with
  | primitive kind =>
    have hcast := primitiveFromTransfer_counts t.platform kind native hnative
    simp [elementFromNative, hplace, hcast]
  | string kind =>
    have htext := stringFromNative_counts t.platform kind native hnative
    simp [elementFromNative, hplace, htext]
  | enum en => simp [elementFromNative, enumFromTransfer, hplace, hnative]
  | struct s => simp [elementFromNative, readStruct, hplace, hnative]

theorem loadFromSlot_counts (buffer offset : Expr) (use : Expr → Stmt) (hbuffer : buffer.Counts P)
    (hoffset : offset.Counts P) (huse : ∀ x, x.Counts P → (use x).Counts P) :
    BodyCounts P (t.loadFromSlot e buffer offset use) := by
  have hread := slotRead_counts small (t.slot e) buffer offset hbuffer hoffset
  cases e with
  | primitive kind => exact ⟨huse _ hread, trivial⟩
  | enum en => exact ⟨huse _ hread, trivial⟩
  | string kind =>
    have htext := huse _ (stringFromNative_counts t.platform kind (.var .text) trivial)
    simp [loadFromSlot, stageFromNative, hread, htext]
  | struct s =>
    have htail := huse (.var .element) trivial
    simp [loadFromSlot, stageFromNative, hread, htail]

variable (depth : Nat) (f : FieldView) {dims : List Nat}

omit small in
theorem inlineArrayToNative_counts (hdims : DimsCount P dims) :
    BodyCounts P (t.inlineArrayToNative depth f e dims dims.prod) := by
  have hcount := hdims.count
  unfold inlineArrayToNative
  split
  · simp [hcount]
  · refine ⟨⟨trivial, by simpa using hcount⟩, ?_⟩
    refine loopNest_counts depth dims hdims.dim none rowsCount_none _ fun indices hindices => ?_
    exact t.elementToNative_counts e _ _ (elementAt_counts _ _ _ trivial hindices)
      ⟨trivial, flatIndex_counts hdims indices hindices, trivial⟩

theorem outOfLineArrayToNative_counts (hdims : DimsCount P dims) :
    BodyCounts P (t.outOfLineArrayToNative depth f e dims dims.prod) := by
  have hsize := t.slotSize_counts small e
  have hslots : BodyCounts P (loopNest depth dims none fun indices =>
      t.storeInSlot e f.native (slotOffset dims indices) (t.layout.elementAt f.value indices)) :=
    loopNest_counts depth dims hdims.dim none rowsCount_none _ fun indices hindices =>
      t.storeInSlot_counts small e _ _ _ trivial (slotOffset_counts hdims indices hindices)
        (elementAt_counts _ _ _ trivial hindices)
  simp [outOfLineArrayToNative, allocate, hsize, hslots, hdims.count]

theorem sequenceToNative_counts (maxBound : Nat) (hbound : P maxBound) :
    BodyCounts P (t.sequenceToNative depth f e maxBound) := by
  have hzero := small 0 (by omega)
  have hsize := t.slotSize_counts small e
  have hcount := bounded_counts (P := P) (.listCount f.value) maxBound trivial hbound
  have hslots := t.storeInSlot_counts small e f.native (sequenceOffset (counter depth))
    (.index f.value [counter depth]) trivial (by simp [sequenceOffset, counter])
    ⟨trivial, trivial, trivial⟩
  simp [sequenceToNative, allocate, countedLoop, hzero, hsize, hcount, hslots]

omit small in
theorem inlineArrayFromNative_counts (hdims : DimsCount P dims) :
    BodyCounts P (t.inlineArrayFromNative depth f e dims dims.prod) := by
  unfold inlineArrayFromNative
  split
  · simp [hdims.count]
  · refine loopNest_counts depth dims hdims.dim _ (rows?_count _ _ _ _ f.value_counts hdims.dim) _
      fun indices hindices => ?_
    exact t.elementFromNative_counts e _ _ (elementAt_counts _ _ _ trivial hindices)
      ⟨trivial, flatIndex_counts hdims indices hindices, trivial⟩

theorem outOfLineArrayFromNative_counts (hdims : DimsCount P dims) :
    BodyCounts P (t.outOfLineArrayFromNative depth f e dims) := by
  have hsize := t.slotSize_counts small e
  have hrows : RowsCount P (t.layout.rows? f.value e.valueType dims) :=
    rows?_count _ _ _ _ f.value_counts hdims.dim
  have hslots : BodyCounts P (loopNest depth dims none fun indices =>
      t.loadFromSlot e f.native (slotOffset dims indices) fun staged =>
        .assign (t.layout.elementAt f.value indices) staged) :=
    loopNest_counts depth dims hdims.dim none rowsCount_none _ fun indices hindices =>
      t.loadFromSlot_counts small e _ _ _ trivial (slotOffset_counts hdims indices hindices)
        fun x hx => ⟨elementAt_counts _ _ _ trivial hindices, hx⟩
  refine (bodyCounts_append _ _).mpr ⟨allRows_count depth _ hrows, ?_⟩
  simp [isHandle, hsize, hslots]

theorem sequenceFromNative_counts (maxBound : Nat) (hbound : P maxBound) (fresh : Expr)
    (hfresh : fresh.Counts P) : BodyCounts P (t.sequenceFromNative depth f e maxBound fresh) := by
  have hzero := small 0 (by omega)
  have hsize := t.slotSize_counts small e
  have hcount := bounded_counts (P := P) (.call (.read .int32) [f.native, .nat 0]) maxBound
    ⟨trivial, hzero, trivial⟩ hbound
  have hslots := t.loadFromSlot_counts small e f.native (sequenceOffset (counter depth))
    (fun staged => .run (.invoke f.value .add [staged])) trivial (by simp [sequenceOffset, counter])
    fun x hx => ⟨trivial, hx, trivial⟩
  simp [sequenceFromNative, isHandle, countedLoop, hfresh, hsize, hcount, hslots]

theorem fillArray_counts (hdims : DimsCount P dims) : BodyCounts P (t.fillArray depth f e dims) := by
  have hrows : RowsCount P (t.layout.rows? f.value e.valueType dims) :=
    rows?_count _ _ _ _ f.value_counts hdims.dim
  unfold fillArray
  cases hfill : e.fill? with
  | none => exact allRows_count depth _ hrows
  | some fill =>
    have hinitial : fill = e.initialValue := by
      cases e <;> cases hfill <;> rfl
    refine loopNest_counts depth dims hdims.dim _ hrows _ fun indices hindices => ?_
    rw [hinitial]
    exact ⟨⟨elementAt_counts _ _ _ trivial hindices, e.initialValue_counts small⟩, trivial⟩

theorem releaseArray_counts (length : Nat) (hlength : P length) :
    BodyCounts P (releaseArray depth f.native e (.inline length)) := by
  have hzero := small 0 (by omega)
  cases e with
  | string kind => simp [releaseArray, whenPresent, hzero]
  | struct s =>
    have hnest : BodyCounts P (loopNest depth [length] none fun indices =>
        [releaseStruct s (.index f.native indices)]) :=
      loopNest_counts depth [length] (by simpa using hlength) none rowsCount_none _
        fun indices hindices => ⟨⟨⟨trivial, hindices⟩, trivial, trivial⟩, trivial⟩
    simp [releaseArray, whenPresent, hnest]
  | _ => trivial

/-- The numerals of a field in `ToNative`. -/
theorem toNative_counts (h : f.shape.Transferable t.layout) (hbounds : ∀ b ∈ f.shape.bounds, P b) :
    BodyCounts P (t.toNative depth f).stmts := by
  obtain ⟨e, hshape⟩ | ⟨e, dims, hshape, valid⟩ | ⟨e, maxBound, hshape, bridges⟩ := h.cases
  · rw [t.toNative_element depth f e hshape]
    exact t.elementToNative_counts e _ _ trivial trivial
  · have hdims := valid.dimsCount small
    rw [t.toNative_array depth f e dims hshape valid]
    cases htransfer : e.transfer dims with
    | inline length =>
      obtain ⟨rfl, _⟩ := Element.transfer_eq_inline htransfer
      exact t.inlineArrayToNative_counts e depth f hdims
    | outOfLine length =>
      obtain ⟨rfl, _⟩ := Element.transfer_eq_outOfLine htransfer
      exact t.outOfLineArrayToNative_counts small e depth f hdims
  · rw [hshape, Shape.bounds, List.forall_mem_singleton] at hbounds
    rw [t.toNative_sequence depth f e maxBound hshape bridges]
    exact t.sequenceToNative_counts small e depth f maxBound hbounds

/-- The numerals of a field in `FromNative`. -/
theorem fromNative_counts (h : f.shape.Transferable t.layout)
    (hbounds : ∀ b ∈ f.shape.bounds, P b) : BodyCounts P (t.fromNative depth f).stmts := by
  obtain ⟨e, hshape⟩ | ⟨e, dims, hshape, valid⟩ | ⟨e, maxBound, hshape, bridges⟩ := h.cases
  · rw [t.fromNative_element depth f e hshape]
    exact t.elementFromNative_counts e _ _ trivial trivial
  · have hdims := valid.dimsCount small
    rw [t.fromNative_array depth f e dims hshape valid]
    refine ⟨⟨trivial, arrayAllocation_counts _ _ hdims⟩, ?_⟩
    cases htransfer : e.transfer dims with
    | inline length =>
      obtain ⟨rfl, _⟩ := Element.transfer_eq_inline htransfer
      exact t.inlineArrayFromNative_counts e depth f hdims
    | outOfLine length => exact t.outOfLineArrayFromNative_counts small e depth f hdims
  · rw [hshape, Shape.bounds, List.forall_mem_singleton] at hbounds
    rw [t.fromNative_sequence depth f e maxBound hshape bridges]
    exact t.sequenceFromNative_counts small e depth f maxBound hbounds _
      ((listAllocation_counts_iff _ _ (small 0 (by omega))).mpr hbounds)

/-- The numerals of a field in the constructor. -/
theorem initial_counts (h : f.shape.Transferable t.layout) (hbounds : ∀ b ∈ f.shape.bounds, P b) :
    BodyCounts P (t.initial depth f).stmts := by
  obtain ⟨e, hshape⟩ | ⟨e, dims, hshape, valid⟩ | ⟨e, maxBound, hshape, _⟩ := h.cases
  · rw [t.initial_element depth f e hshape]
    exact ⟨⟨trivial, e.initialValue_counts small⟩, trivial⟩
  · have hdims := valid.dimsCount small
    rw [t.initial_array depth f e dims hshape valid]
    refine ⟨⟨trivial, arrayAllocation_counts _ _ hdims⟩, ?_⟩
    split
    · exact t.fillArray_counts small e depth f hdims
    · trivial
  · rw [hshape, Shape.bounds, List.forall_mem_singleton] at hbounds
    rw [t.initial_sequence depth f e maxBound hshape]
    exact ⟨⟨trivial, (listAllocation_counts_iff _ _ (small 0 (by omega))).mpr hbounds⟩, trivial⟩

/-- The numerals of a field in `ReleaseNative`. -/
theorem releaseNative_counts (h : f.shape.Transferable t.layout) :
    BodyCounts P (InteropGen.releaseNative depth f).stmts := by
  obtain ⟨e, hshape⟩ | ⟨e, dims, hshape, valid⟩ | ⟨e, maxBound, hshape, _⟩ := h.cases
  · rw [release_element depth f e hshape]
    cases e <;> simp [releaseElement, releaseStruct, resetHandle]
  · rw [release_array depth f e dims hshape valid]
    cases htransfer : e.transfer dims with
    | outOfLine length => simp [releaseArray, resetHandle]
    | inline length =>
      obtain ⟨rfl, _⟩ := Element.transfer_eq_inline htransfer
      exact releaseArray_counts small e depth f _ (valid.dimsCount small).count
  · rw [release_sequence depth f e maxBound hshape]
    simp [resetHandle]

/-- The numerals of a field in `Encode`. -/
theorem encode_counts (h : f.shape.Encodable) (hbounds : ∀ b ∈ f.shape.bounds, P b) :
    BodyCounts P (t.encode depth f).stmts := by
  obtain ⟨e, tag, hshape, htag⟩ | ⟨en, hshape⟩ | ⟨e, tag, dims, hshape, htag, valid⟩ |
    ⟨e, tag, maxBound, hshape, htag⟩ := h.cases
  · rw [t.encode_scalar depth f e tag hshape htag]
    simp [writeCall]
  · rw [t.encode_enum depth f en hshape]
    simp [writeCall]
  · have hdims := valid.dimsCount small
    rw [t.encode_array depth f e tag dims hshape htag valid]
    unfold encodeArray
    split
    · refine loopNest_counts depth dims hdims.dim none rowsCount_none _ fun indices hindices => ?_
      simp [writeCall, elementAt_counts t.layout f.value indices trivial hindices]
    · simp [writeCall, hdims.count]
  · rw [hshape, Shape.bounds, List.forall_mem_singleton] at hbounds
    rw [t.encode_sequence depth f e tag maxBound hshape htag]
    simp [writeCall, boundArgument_count maxBound hbounds]

/-- The numerals of a field in `Decode`. -/
theorem decode_counts (h : f.shape.Encodable) (hbounds : ∀ b ∈ f.shape.bounds, P b) :
    BodyCounts P (t.decode depth f).stmts := by
  obtain ⟨e, tag, hshape, htag⟩ | ⟨en, hshape⟩ | ⟨e, tag, dims, hshape, htag, valid⟩ |
    ⟨e, tag, maxBound, hshape, htag⟩ := h.cases
  · rw [t.decode_scalar depth f e tag hshape htag]
    simp [readCall]
  · rw [t.decode_enum depth f en hshape]
    simp [enumFromTransfer]
  · have hdims := valid.dimsCount small
    rw [t.decode_array depth f e tag dims hshape htag valid]
    unfold decodeArray
    split
    · refine ⟨⟨trivial, arrayAllocation_counts _ _ hdims⟩, ?_⟩
      refine loopNest_counts depth dims hdims.dim _ (rows?_count _ _ _ _ f.value_counts hdims.dim) _
        fun indices hindices => ?_
      simp [readCall, elementAt_counts t.layout f.value indices trivial hindices]
    · simp [readCall, hdims.count]
  · rw [hshape, Shape.bounds, List.forall_mem_singleton] at hbounds
    rw [t.decode_sequence depth f e tag maxBound hshape htag]
    simp [readCall, boundArgument_count maxBound hbounds]

/-- The length in the attribute of a field. -/
theorem transferField_count (h : f.shape.Transferable t.layout) (field : TransferField)
    (hfield : t.transferField f = .ok field) (length : Nat) (elementType : Option UnmanagedType)
    (hattribute : field.marshalAs = some (.byValArray length elementType)) : P length := by
  simp only [transferField, except_bind_ok_iff] at hfield
  obtain ⟨marshalAs, hmarshal, type, _, hresult⟩ := hfield
  cases hresult
  simp only at hattribute
  subst hattribute
  unfold transferAttribute at hmarshal
  obtain ⟨e, hshape⟩ | ⟨e, dims, hshape, valid⟩ | ⟨e, maxBound, hshape, _⟩ := h.cases
  · rw [hshape] at hmarshal
    cases e <;> simp [Element.shape] at hmarshal
  · rw [hshape] at hmarshal
    simp only [Element.classify_shape, arrayTransfer_of_valid f.site e dims valid, bind,
      Except.bind] at hmarshal
    cases htransfer : e.transfer dims with
    | inline count =>
      obtain ⟨rfl, _⟩ := Element.transfer_eq_inline htransfer
      have hlength : length = dims.prod := by
        rw [htransfer] at hmarshal
        cases e <;> cases hmarshal <;> rfl
      rw [hlength]
      exact (valid.dimsCount small).count
    | outOfLine count =>
      rw [htransfer] at hmarshal
      cases hmarshal
  · rw [hshape] at hmarshal
    cases hmarshal

end Target

/-! ### The code of a struct -/

/-- If all numbers of 32 bits are of a kind, the numerals in the code of an accepted struct are of it
exactly if the bounds of its sequences are. -/
theorem structCode_counts_iff {t : Target} {wireCodec : Bool} {s : StructType}
    {code : DeclarationCode} (h : t.structCode wireCodec s = .ok code) :
    code.Counts P ↔ ∀ b ∈ s.bounds, P b := by
  obtain ⟨c, transfers, bodies, hfields, hunits⟩ := structCode_cases h
  have htransferable := structCode_transferable h
  have hcounts : code.Counts P ↔ c.Counts P ∧ transfers.Counts P := by
    simp [DeclarationCode.Counts, hunits, TypeDecl.Counts]
  rw [hcounts]
  constructor
  · -- a bound is the capacity of the list that the constructor makes
    rintro ⟨hclass, _⟩ b hb
    obtain ⟨f, hf, hbound⟩ := List.mem_flatMap.mp hb
    have hinitial := hclass.constructor
    rw [bodies.constructor, bodyOf, bodyCounts_flatMap] at hinitial
    have hfield := hinitial (.of s.name.qualified f) (List.mem_map_of_mem hf)
    obtain ⟨e, hshape⟩ | ⟨e, dims, hshape, _⟩ | ⟨e, maxBound, hshape, _⟩ := (htransferable f hf).cases
    · rw [hshape] at hbound
      cases e <;> cases hbound
    · rw [hshape] at hbound
      cases hbound
    · rw [hshape] at hbound
      obtain rfl := List.mem_singleton.mp hbound
      rw [t.initial_sequence 0 _ e b hshape] at hfield
      exact (listAllocation_counts_iff _ _ (small 0 (by omega))).mp hfield.1.2
  · intro hbounds
    have hviews : ∀ f ∈ Target.views s,
        f.shape.Transferable t.layout ∧ ∀ b ∈ f.shape.bounds, P b :=
      forall_mem_views fun f hf => ⟨htransferable f hf, fun b hb =>
        hbounds b (List.mem_flatMap.mpr ⟨f, hf, hb⟩)⟩
    refine ⟨⟨?_, ?_, ?_, ?_, ?_⟩, ?_⟩
    · rw [bodies.constructor, bodyOf, bodyCounts_flatMap]
      exact fun f hf => t.initial_counts small 0 f (hviews f hf).1 (hviews f hf).2
    · rw [bodies.toNative, bodyOf, bodyCounts_flatMap]
      exact fun f hf => t.toNative_counts small 0 f (hviews f hf).1 (hviews f hf).2
    · rw [bodies.fromNative, bodyOf, bodyCounts_flatMap]
      exact fun f hf => t.fromNative_counts small 0 f (hviews f hf).1 (hviews f hf).2
    · rw [bodies.releaseNative, bodyCounts_append, bodyOf, bodyCounts_flatMap]
      exact ⟨by simp [freeReleased], fun f hf => t.releaseNative_counts small 0 f (hviews f hf).1⟩
    · intro encode decode hcodec
      rw [bodies.codec] at hcodec
      by_cases hmessage : (wireCodec && s.isDistinguished) = true
      · rw [if_pos hmessage] at hcodec
        cases hcodec
        have hencodable : ∀ f ∈ Target.views s, f.shape.Encodable :=
          forall_mem_views (structCode_encodable h hmessage)
        simp only [bodyOf, bodyCounts_flatMap]
        exact ⟨fun f hf => t.encode_counts small 0 f (hencodable f hf) (hviews f hf).2,
          fun f hf => t.decode_counts small 0 f (hencodable f hf) (hviews f hf).2⟩
      · rw [if_neg hmessage] at hcodec
        cases hcodec
    · intro field hfield length elementType hattribute
      simp only [Target.transferStruct, except_bind_ok_iff] at hfields
      obtain ⟨fields, hmapM, hresult⟩ := hfields
      cases hresult
      obtain ⟨f, hf, hmade⟩ := except_mapM_of_mem _ _ _ hmapM field hfield
      exact t.transferField_count small f (hviews f hf).1 field hmade length elementType hattribute

end

/-- Every numeral in the code of an accepted struct is an `int`, or it is the bound of one of its
sequences, which nothing checks: all of them are exactly if those bounds are. -/
theorem counts_fit_iff (t : Target) (wireCodec : Bool) (s : StructType) (code : DeclarationCode)
    (h : t.structCode wireCodec s = .ok code) :
    code.Counts (fun n => n ≤ 2147483647 ∨ n ∈ s.bounds) ∧
      (code.Counts (· ≤ 2147483647) ↔ ∀ b ∈ s.bounds, b ≤ 2147483647) :=
  ⟨(structCode_counts_iff (fun _ hn => .inl hn) h).mpr fun _ hb => .inr hb,
    structCode_counts_iff (fun _ hn => hn) h⟩

namespace Sonar

def target : Target := ⟨.jagged, .linux, "_Native"⟩

/-- A message with the largest array of pairs, and a sequence whose bound is no `int`. -/
def ping : StructType :=
  ⟨.ofSegments ["Sonar", "Ping"],
    [⟨"pairs", .fixedArray (.primitive .i16) [1073741823, 2]⟩,
      ⟨"samples", .sequence (.primitive .i32) 3000000000⟩], some "message"⟩

theorem accepted : ∃ code, target.structCode true ping = .ok code := ⟨_, rfl⟩

end Sonar

theorem ping_counts :
    ∃ code, Sonar.target.structCode true Sonar.ping = .ok code ∧
      code.Counts (fun n => n ≤ 2147483647 ∨ n ∈ [3000000000]) ∧
      (code.Counts (· ≤ 2147483647) ↔ ∀ b ∈ [3000000000], b ≤ 2147483647) := by
  obtain ⟨code, hcode⟩ := Sonar.accepted
  exact ⟨code, hcode, counts_fit_iff Sonar.target true Sonar.ping code hcode⟩

/-- A bound that is no `int` is written as it is. -/
theorem ping_bound_written :
    ∃ code, Sonar.target.structCode true Sonar.ping = .ok code ∧
      ¬ code.Counts (· ≤ 2147483647) := by
  obtain ⟨code, hcode⟩ := Sonar.accepted
  refine ⟨code, hcode, fun hcounts => ?_⟩
  have hbound := (structCode_counts_iff (fun _ hn => hn) hcode).mp hcounts 3000000000
    (List.mem_singleton.mpr rfl)
  omega

end InteropGen

import InteropGen.Proofs.Arrays.Conversions
import InteropGen.Proofs.Transfer.Hosts

/-!
# The native layout of arrays

An array lies in its transfer struct, or in a buffer behind it, flattened in row-major order. The
length and the place of every element occur in several artifacts that are generated apart: the
attribute and the type of the transfer field, and the conversions either way. They agree.

* `Target.toNativeEvents_writes` — the places that are written, in order;
* `Target.toNativeEvents_flows`, `Target.fromNativeEvents_flows` — what moves where;
* `array_native_layout` — the main result.
-/

set_option autoImplicit false

namespace InteropGen

open CSharp

/-- A primitive that is copied as it is needs no conversion. -/
theorem conversions_of_isDirect {platform : Platform} {kind : PrimitiveKind}
    (h : platform.isDirect kind = true) (x : Expr) :
    platform.primitiveToTransfer kind x = x ∧ platform.primitiveFromTransfer kind x = x := by
  cases kind with
  | longdouble => cases platform <;> cases h
  | wchar =>
    cases platform with
    | windows => exact ⟨rfl, rfl⟩
    | linux => cases h
  | _ => exact ⟨rfl, rfl⟩

theorem flatMap_eq_map {α β : Type} (items : List α) (f : α → List β) (g : α → β)
    (h : ∀ a, f a = [g a]) : items.flatMap f = items.map g := by
  rw [List.map_eq_flatMap, funext h]

/-- The items of a copied array are its elements. -/
theorem FieldView.item_singleton (f : FieldView) (layout : Layout) (i : Nat) :
    f.item layout [i] = .element .value f.site.field [[i]] := by
  cases layout <;> rfl

namespace Target

variable (m : Machine) (t : Target) (f : FieldView) (e : Element) (dims : List Nat)
  (valid : ValidDims dims)

include valid

/-- What `ToNative` changes: each place of the flattened array, in order. -/
theorem toNativeEvents_writes :
    (t.toNativeEvents m f e dims).flatMap Event.writes =
      (List.range dims.prod).map (t.nativeItem m f e dims) := by
  have hall : (rowMajor dims).map (fun idx => t.nativeItem m f e dims (flat dims idx)) =
      (List.range dims.prod).map (t.nativeItem m f e dims) := by
    rw [← rowMajor_map_flat, List.map_map]
    rfl
  rw [← hall]
  unfold toNativeEvents
  cases htransfer : e.transfer dims with
  | inline length =>
    obtain ⟨rfl, _⟩ := Element.transfer_eq_inline htransfer
    by_cases hcopy : (!multiDimensional dims && t.platform.copiesDirectly e) = true
    · obtain ⟨d, kind, rfl, rfl, _⟩ := copied_cases valid hcopy
      simp [hcopy, Event.writes, rowMajor_singleton, nativeItem, htransfer, flat]
    · simp only [if_neg hcopy, List.flatMap_cons, List.flatMap_assoc]
      refine flatMap_eq_map _ _ _ fun idx => ?_
      cases e <;> rfl
  | outOfLine length =>
    simp only [List.flatMap_cons, List.flatMap_assoc]
    exact flatMap_eq_map _ _ _ fun idx => rfl

/-- What `ToNative` moves: each element to the position of its indices. -/
theorem toNativeEvents_flows :
    (t.toNativeEvents m f e dims).flatMap Event.flows =
      (rowMajor dims).map fun idx =>
        (t.nativeItem m f e dims (flat dims idx), f.item t.layout idx) := by
  unfold toNativeEvents
  cases htransfer : e.transfer dims with
  | inline length =>
    obtain ⟨rfl, _⟩ := Element.transfer_eq_inline htransfer
    by_cases hcopy : (!multiDimensional dims && t.platform.copiesDirectly e) = true
    · obtain ⟨d, kind, rfl, rfl, _⟩ := copied_cases valid hcopy
      simp [hcopy, Event.flows, rowMajor_singleton, nativeItem, htransfer, flat, f.item_singleton]
    · simp only [if_neg hcopy, List.flatMap_cons, List.flatMap_assoc]
      refine flatMap_eq_map _ _ _ fun idx => ?_
      cases e <;> rfl
  | outOfLine length =>
    simp only [List.flatMap_cons, List.flatMap_assoc]
    exact flatMap_eq_map _ _ _ fun idx => rfl

variable {present : Bool} (hpresent : e.transfer dims = .outOfLine dims.prod → present = true)

include hpresent

/-- What `FromNative` assigns: each element once, in row-major order. -/
theorem fromNativeEvents_assigns :
    (t.fromNativeEvents m f e dims present).flatMap Event.assigns =
      (rowMajor dims).map (f.item t.layout) := by
  have hrows := f.arrayEvents_flatMap_nil Event.assigns (fun _ _ _ _ => rfl) t.layout e.valueType dims
  unfold fromNativeEvents
  cases htransfer : e.transfer dims with
  | inline length =>
    obtain ⟨rfl, _⟩ := Element.transfer_eq_inline htransfer
    by_cases hcopy : (!multiDimensional dims && t.platform.copiesDirectly e) = true
    · obtain ⟨d, kind, rfl, rfl, _⟩ := copied_cases valid hcopy
      simp [hcopy, hrows, Event.assigns, Event.writes, rowMajor_singleton, f.item_singleton,
        Function.comp_def]
    · simp only [if_neg hcopy]
      rw [f.arrayEvents_flatMap _ fun _ _ _ _ => rfl]
      refine flatMap_eq_map _ _ _ fun idx => ?_
      cases e <;> rfl
  | outOfLine length =>
    obtain ⟨rfl, _⟩ := Element.transfer_eq_outOfLine htransfer
    simp only [hpresent htransfer, if_true, List.flatMap_append, hrows, List.flatMap_assoc,
      List.nil_append]
    exact flatMap_eq_map _ _ _ fun idx => rfl

/-- What `FromNative` moves: each element from the position of its indices. -/
theorem fromNativeEvents_flows :
    (t.fromNativeEvents m f e dims present).flatMap Event.flows =
      (rowMajor dims).map fun idx =>
        (f.item t.layout idx, t.nativeItem m f e dims (flat dims idx)) := by
  have hrows := f.arrayEvents_flatMap_nil Event.flows (fun _ _ _ _ => rfl) t.layout e.valueType dims
  unfold fromNativeEvents
  cases htransfer : e.transfer dims with
  | inline length =>
    obtain ⟨rfl, _⟩ := Element.transfer_eq_inline htransfer
    by_cases hcopy : (!multiDimensional dims && t.platform.copiesDirectly e) = true
    · obtain ⟨d, kind, rfl, rfl, _⟩ := copied_cases valid hcopy
      simp [hcopy, hrows, Event.flows, rowMajor_singleton, nativeItem, htransfer, flat,
        f.item_singleton, Function.comp_def]
    · simp only [if_neg hcopy]
      rw [f.arrayEvents_flatMap _ fun _ _ _ _ => rfl]
      refine flatMap_eq_map _ _ _ fun idx => ?_
      cases e <;> rfl
  | outOfLine length =>
    obtain ⟨rfl, _⟩ := Element.transfer_eq_outOfLine htransfer
    simp only [hpresent htransfer, if_true, List.flatMap_append, hrows, List.flatMap_assoc,
      List.nil_append]
    exact flatMap_eq_map _ _ _ fun idx => rfl

omit valid hpresent

/-- What `ToNative` makes: the inline array, or the buffer. -/
theorem toNativeEvents_fresh {α : Type} (view : Event → List α)
    (hassign : ∀ place sources, view (.assign place sources) = [])
    (hfill : ∀ place sources, view (.fill place sources) = [])
    (hcopy : ∀ source target n, view (.copy source target n) = [])
    (hvisit : ∀ places, view (.visit places) = []) :
    (t.toNativeEvents m f e dims).flatMap view =
      match e.transfer dims with
      | .inline length => view (.allocate f.transfer (t.elementTransferType e) [length] 0)
      | .outOfLine length =>
        view (.reserve f.transfer (t.elementTransferType e)
          (int32 ((t.slot e).width m * length))) := by
  unfold toNativeEvents
  cases e.transfer dims with
  | inline length =>
    have hstore : ∀ place value, (e.storeEvents place value).flatMap view = [] := by
      intro place value
      cases e <;> simp [Element.storeEvents, hassign, hfill, hvisit]
    simp only [List.flatMap_cons]
    split
    · simp [hcopy]
    · simp [List.flatMap_assoc, hstore]
  | outOfLine length => simp [List.flatMap_assoc, hassign, hvisit]

/-- The transfer field of an array. -/
theorem transferField_array (valid : ValidDims dims) (hshape : f.shape = .array e.shape dims) :
    ∃ field, t.transferField f = .ok field ∧
      match e.transfer dims with
      | .inline length =>
        (∃ elementType, field.marshalAs = some (.byValArray length elementType)) ∧
          field.type = .array (t.elementTransferType e) 1
      | .outOfLine _ => field.marshalAs = none ∧ field.type = .intPtr := by
  have htransfer := arrayTransfer_of_valid f.site e dims valid
  unfold transferField transferAttribute transferType
  rw [hshape]
  simp only [Element.classify_shape, bind, Except.bind, htransfer]
  cases e.transfer dims with
  | inline length =>
    cases e with
    | primitive kind => exact ⟨_, rfl, ⟨_, rfl⟩, rfl⟩
    | string kind => exact ⟨_, rfl, ⟨none, rfl⟩, rfl⟩
    | enum en => exact ⟨_, rfl, ⟨none, rfl⟩, rfl⟩
    | struct s => exact ⟨_, rfl, ⟨none, rfl⟩, rfl⟩
  | outOfLine length => exact ⟨_, rfl, rfl, rfl⟩

/-- When an array is copied in one go. -/
def copiesWhole : Bool :=
  !multiDimensional dims && t.platform.copiesDirectly e

theorem toNativeEvents_copies :
    (t.toNativeEvents m f e dims).flatMap Event.copies =
      if t.copiesWhole e dims then [dims.prod] else [] := by
  unfold toNativeEvents copiesWhole
  cases htransfer : e.transfer dims with
  | inline length =>
    obtain ⟨rfl, _⟩ := Element.transfer_eq_inline htransfer
    by_cases hcopy : (!multiDimensional dims && t.platform.copiesDirectly e) = true
    · simp [hcopy, Event.copies]
    · simp only [if_neg hcopy, List.flatMap_cons, List.flatMap_assoc]
      refine List.flatMap_eq_nil_iff.mpr fun idx _ => ?_
      cases e <;> rfl
  | outOfLine length =>
    obtain ⟨rfl, s, rfl⟩ := Element.transfer_eq_outOfLine htransfer
    have hcopy : (!multiDimensional dims && t.platform.copiesDirectly (.struct s)) = false :=
      Bool.and_false _
    simp only [hcopy, List.flatMap_cons, List.flatMap_assoc]
    exact List.flatMap_eq_nil_iff.mpr fun idx _ => rfl

theorem fromNativeEvents_copies (present : Bool) :
    (t.fromNativeEvents m f e dims present).flatMap Event.copies =
      if t.copiesWhole e dims then [dims.prod] else [] := by
  have hrows := f.arrayEvents_flatMap_nil Event.copies (fun _ _ _ _ => rfl) t.layout e.valueType dims
  unfold fromNativeEvents copiesWhole
  cases htransfer : e.transfer dims with
  | inline length =>
    obtain ⟨rfl, _⟩ := Element.transfer_eq_inline htransfer
    by_cases hcopy : (!multiDimensional dims && t.platform.copiesDirectly e) = true
    · simp [hcopy, hrows, Event.copies]
    · simp only [if_neg hcopy]
      rw [f.arrayEvents_flatMap _ fun _ _ _ _ => rfl]
      refine List.flatMap_eq_nil_iff.mpr fun idx _ => ?_
      cases e <;> rfl
  | outOfLine length =>
    obtain ⟨rfl, s, rfl⟩ := Element.transfer_eq_outOfLine htransfer
    have hcopy : (!multiDimensional dims && t.platform.copiesDirectly (.struct s)) = false :=
      Bool.and_false _
    simp only [hcopy, List.flatMap_append, hrows, List.nil_append]
    cases present with
    | false => rfl
    | true =>
      simp only [if_true, List.flatMap_assoc]
      exact List.flatMap_eq_nil_iff.mpr fun idx _ => rfl

/-- Only primitives that need no conversion are copied in one go. -/
theorem copiesWhole_cases (valid : ValidDims dims) (h : t.copiesWhole e dims = true) :
    ∃ kind, e = .primitive kind ∧ ∀ x, t.platform.primitiveToTransfer kind x = x ∧
      t.platform.primitiveFromTransfer kind x = x := by
  obtain ⟨d, kind, rfl, rfl, hdirect⟩ := copied_cases valid h
  exact ⟨kind, rfl, conversions_of_isDirect hdirect⟩

end Target

/-- The arrays that go behind a handle: structs in several dimensions. -/
def Element.GoesOutOfLine (e : Element) (dims : List Nat) : Prop :=
  1 < dims.length ∧ ∃ inner, e = .struct inner

theorem Element.transfer_of_goesOutOfLine {e : Element} {dims : List Nat}
    (h : e.GoesOutOfLine dims) : e.transfer dims = .outOfLine dims.prod := by
  obtain ⟨hrank, inner, rfl⟩ := h
  simp [transfer, multiDimensional, hrank]

theorem Element.transfer_of_not_goesOutOfLine {e : Element} {dims : List Nat}
    (h : ¬ e.GoesOutOfLine dims) : e.transfer dims = .inline dims.prod := by
  cases e with
  | struct inner =>
    have hrank : ¬ 1 < dims.length := fun hlt => h ⟨hlt, inner, rfl⟩
    simp [transfer, multiDimensional, hrank]
  | _ => rfl

/-- The size of a buffer for the elements of an array, behind its handle, is a number of 32 signed
bits. -/
def FitsBuffer (m : Machine) (t : Target) (e : Element) (dims : List Nat) : Prop :=
  e.GoesOutOfLine dims → (t.slot e).width m * dims.prod ≤ 2147483647

section
variable (m : Machine) (t : Target) (f : FieldView) (e : Element) (dims : List Nat)
  (field : TransferField)

/-- What an array inside its transfer struct looks like: in the declaration of its field, and in what
`ToNative` allocates. -/
structure InlineLayout (storing : List Event) : Prop where
  marshalling : ∃ elementType, field.marshalAs = some (.byValArray dims.prod elementType)
  type : field.type = .array (t.elementTransferType e) 1
  allocation : storing.flatMap Event.allocations = [(f.transfer, field.type, [dims.prod])]
  buffer : storing.flatMap Event.reservations = []

/-- What an array behind a handle looks like. Its buffer has the bytes that the product of the size of
a slot and the number of slots leaves in 32 bits. These are the slots where they fit, and only
then. -/
structure OutOfLineLayout (storing : List Event) : Prop where
  marshalling : field.marshalAs = none
  type : field.type = .intPtr
  allocation : storing.flatMap Event.allocations = []
  buffer : storing.flatMap Event.reservations =
    [(f.transfer, t.elementTransferType e, int32 ((t.slot e).width m * dims.prod))]
  exact : int32 ((t.slot e).width m * dims.prod) = ((t.slot e).width m * dims.prod : Nat) ↔
    FitsBuffer m t e dims

/-- The slots of an array behind a handle: one after the other, all inside of the buffer. -/
structure SlotsInBuffer : Prop where
  places : ∀ position < dims.prod, t.nativeItem m f e dims position =
    .slot f.site.field (t.elementTransferType e) (position * (t.slot e).width m : Nat)
  inside : ∀ position < dims.prod,
    (position + 1) * (t.slot e).width m ≤ (t.slot e).width m * dims.prod

/-- What `ToNative` moves. -/
structure StoresRowMajor (storing : List Event) : Prop where
  writes : storing.flatMap Event.writes = (List.range dims.prod).map (t.nativeItem m f e dims)
  once : FitsBuffer m t e dims → (storing.flatMap Event.writes).Nodup
  flows : storing.flatMap Event.flows =
    (rowMajor dims).map fun idx =>
      (t.nativeItem m f e dims (flat dims idx), f.item t.layout idx)

/-- What `FromNative` moves. -/
structure ReadsRowMajor (reading : List Event) : Prop where
  assigns : reading.flatMap Event.assigns = (rowMajor dims).map (f.item t.layout)
  once : (reading.flatMap Event.assigns).Nodup
  flows : reading.flatMap Event.flows =
    (rowMajor dims).map fun idx =>
      (f.item t.layout idx, t.nativeItem m f e dims (flat dims idx))

/-- The declared transfer field of an array and the two conversions agree. The handle of an array
that is out of line may be null; then nothing is read. -/
structure AgreesOnLayout (present : Bool) (storing reading : List Event) : Prop where
  inlined : ¬ e.GoesOutOfLine dims → InlineLayout t f e dims field storing
  outOfLine : e.GoesOutOfLine dims → OutOfLineLayout m t f e dims field storing
  slots : e.GoesOutOfLine dims → FitsBuffer m t e dims → SlotsInBuffer m t f e dims
  stores : StoresRowMajor m t f e dims storing
  reads : (e.GoesOutOfLine dims → present = true) → ReadsRowMajor m t f e dims reading
  absent : e.GoesOutOfLine dims → present = false → reading.flatMap Event.assigns = []
  copies : ∀ n ∈ storing.flatMap Event.copies ++ reading.flatMap Event.copies, n = dims.prod ∧
    ∀ value native, t.elementToNative e value native = [.assign native value] ∧
      t.elementFromNative e value native = [.assign value native]

end

/-- Where the buffer fits, a slot of it is as far from its start as the product says. -/
theorem Target.nativeItem_outOfLine (m : Machine) (t : Target) (f : FieldView) {e : Element}
    {dims : List Nat} (hout : e.GoesOutOfLine dims) (hfits : FitsBuffer m t e dims) {position : Nat}
    (hposition : position ≤ dims.prod) :
    t.nativeItem m f e dims position =
      .slot f.site.field (t.elementTransferType e) (position * (t.slot e).width m : Nat) := by
  have hoffset : position * (t.slot e).width m ≤ 2147483647 := by
    calc position * (t.slot e).width m
        ≤ dims.prod * (t.slot e).width m := Nat.mul_le_mul_right _ hposition
      _ = (t.slot e).width m * dims.prod := Nat.mul_comm _ _
      _ ≤ 2147483647 := hfits hout
  rw [nativeItem, Element.transfer_of_goesOutOfLine hout]
  simp only
  rw [← Int.natCast_mul, int32_natCast hoffset]

theorem slotsInBuffer (m : Machine) (t : Target) (f : FieldView) {e : Element} {dims : List Nat}
    (hout : e.GoesOutOfLine dims) (hfits : FitsBuffer m t e dims) :
    SlotsInBuffer m t f e dims where
  places position hposition := t.nativeItem_outOfLine m f hout hfits (Nat.le_of_lt hposition)
  inside position hposition := by
    rw [Nat.mul_comm _ dims.prod]
    exact Nat.mul_le_mul_right _ hposition

/-- The bytes of the buffer are those of its slots just where they fit. -/
theorem fitsBuffer_iff (m : Machine) (t : Target) {e : Element} {dims : List Nat}
    (hout : e.GoesOutOfLine dims) :
    int32 ((t.slot e).width m * dims.prod) = ((t.slot e).width m * dims.prod : Nat) ↔
      FitsBuffer m t e dims := by
  rw [← Int.natCast_mul, int32_eq_self_iff, FitsBuffer]
  unfold InInt32
  constructor
  · intro h _
    omega
  · intro h
    have := h hout
    omega

/-- Where the buffer fits, no two positions have one place. -/
theorem Target.nativeItem_injOn (m : Machine) (t : Target) (f : FieldView) (e : Element)
    (dims : List Nat) (hfits : FitsBuffer m t e dims) {a b : Nat} (ha : a < dims.prod)
    (hb : b < dims.prod) (h : t.nativeItem m f e dims a = t.nativeItem m f e dims b) : a = b := by
  by_cases hout : e.GoesOutOfLine dims
  · rw [t.nativeItem_outOfLine m f hout hfits (Nat.le_of_lt ha),
      t.nativeItem_outOfLine m f hout hfits (Nat.le_of_lt hb)] at h
    obtain ⟨_, inner, rfl⟩ := hout
    have hwidth : 0 < (t.slot (.struct inner)).width m := m.structSize_pos _
    have hoffsets : a * (t.slot (.struct inner)).width m = b * (t.slot (.struct inner)).width m := by
      have := (Spot.slot.inj h).2.2
      omega
    exact Nat.eq_of_mul_eq_mul_right hwidth hoffsets
  · unfold nativeItem at h
    rw [Element.transfer_of_not_goesOutOfLine hout] at h
    simpa using h

theorem Layout.brackets_injective (layout : Layout) : Function.Injective layout.brackets := by
  cases layout with
  | rectangular => exact List.singleton_injective
  | jagged => exact List.map_injective_iff.mpr List.singleton_injective

theorem FieldView.item_injective (f : FieldView) (layout : Layout) :
    Function.Injective (f.item layout) := by
  intro a b h
  exact layout.brackets_injective (by simpa [item] using h)

section
variable (m : Machine) (t : Target) (f : FieldView) (e : Element) (dims : List Nat)
  (valid : ValidDims dims)

include valid

theorem storesRowMajor : StoresRowMajor m t f e dims (t.toNativeEvents m f e dims) where
  writes := t.toNativeEvents_writes m f e dims valid
  once hfits := by
    rw [t.toNativeEvents_writes m f e dims valid]
    refine List.Nodup.map_on ?_ List.nodup_range
    intro a ha b hb
    exact t.nativeItem_injOn m f e dims hfits (List.mem_range.mp ha) (List.mem_range.mp hb)
  flows := t.toNativeEvents_flows m f e dims valid

theorem readsRowMajor {present : Bool} (h : e.GoesOutOfLine dims → present = true) :
    ReadsRowMajor m t f e dims (t.fromNativeEvents m f e dims present) := by
  have hpresent : e.transfer dims = .outOfLine dims.prod → present = true := by
    intro htransfer
    by_contra habsent
    rw [Element.transfer_of_not_goesOutOfLine fun hout => habsent (h hout)] at htransfer
    cases htransfer
  have hassigns := t.fromNativeEvents_assigns m f e dims valid hpresent
  refine ⟨hassigns, ?_, t.fromNativeEvents_flows m f e dims valid hpresent⟩
  rw [hassigns]
  exact (rowMajor_nodup dims).map (f.item_injective t.layout)

/-- The artifacts of an array agree, whatever is known where its conversions start. -/
theorem agreesOnLayout (field : TransferField) (hfield : t.transferField f = .ok field)
    (hshape : f.shape = .array e.shape dims) (present : Bool) :
    AgreesOnLayout m t f e dims field present (t.toNativeEvents m f e dims)
      (t.fromNativeEvents m f e dims present) := by
  obtain ⟨field', hfield', hdeclared⟩ := t.transferField_array f e dims valid hshape
  obtain rfl : field' = field := Except.ok.inj (hfield'.symm.trans hfield)
  refine ⟨?_, ?_, ?_, storesRowMajor m t f e dims valid, readsRowMajor m t f e dims valid, ?_, ?_⟩
  · intro hinline
    have htransfer := Element.transfer_of_not_goesOutOfLine hinline
    rw [htransfer] at hdeclared
    obtain ⟨hmarshal, htype⟩ := hdeclared
    refine ⟨hmarshal, htype, ?_, ?_⟩
    · rw [t.toNativeEvents_fresh m f e dims Event.allocations (fun _ _ => rfl) (fun _ _ => rfl)
        (fun _ _ _ => rfl) fun _ => rfl, htransfer, htype]
      rfl
    · rw [t.toNativeEvents_fresh m f e dims Event.reservations (fun _ _ => rfl) (fun _ _ => rfl)
        (fun _ _ _ => rfl) fun _ => rfl, htransfer]
      rfl
  · intro hout
    have htransfer := Element.transfer_of_goesOutOfLine hout
    rw [htransfer] at hdeclared
    obtain ⟨hmarshal, htype⟩ := hdeclared
    refine ⟨hmarshal, htype, ?_, ?_, fitsBuffer_iff m t hout⟩
    · rw [t.toNativeEvents_fresh m f e dims Event.allocations (fun _ _ => rfl) (fun _ _ => rfl)
        (fun _ _ _ => rfl) fun _ => rfl, htransfer]
      rfl
    · rw [t.toNativeEvents_fresh m f e dims Event.reservations (fun _ _ => rfl) (fun _ _ => rfl)
        (fun _ _ _ => rfl) fun _ => rfl, htransfer]
      rfl
  · intro hout hfits
    exact slotsInBuffer m t f hout hfits
  · intro hout habsent
    have hrows := f.arrayEvents_flatMap_nil Event.assigns (fun _ _ _ _ => rfl) t.layout e.valueType
      dims
    simp [Target.fromNativeEvents, Element.transfer_of_goesOutOfLine hout, habsent, hrows]
  · intro n hn
    rw [t.toNativeEvents_copies m, t.fromNativeEvents_copies] at hn
    cases hcopy : t.copiesWhole e dims with
    | false => simp [hcopy] at hn
    | true =>
      obtain ⟨kind, rfl, hidentity⟩ := t.copiesWhole_cases e dims valid hcopy
      refine ⟨by simpa [hcopy] using hn, ?_⟩
      intro value native
      simp [Target.elementToNative, Target.elementFromNative, hidentity]

end

/-- The artifacts of an array in an accepted struct agree on its native layout: the declared transfer
field, and the statements for the array in either conversion, wherever in the method they start. -/
theorem array_native_layout {t : Target} {wireCodec : Bool} {s : StructType}
    {code : DeclarationCode} (haccepted : t.structCode wireCodec s = .ok code) (f : FieldView)
    (hf : f ∈ Target.views s) (element : Shape) (dims : List Nat)
    (hshape : f.shape = .array element dims) :
    ∃ (e : Element) (c : ValueClass) (transfers : TransferStruct) (field : TransferField),
      element = e.shape ∧
      code.units = ⟨some ⟨s.name.enclosing, .valueClass c⟩,
        some ⟨s.name.enclosing, .transferStruct transfers⟩⟩ ∧
      c.toNative = bodyOf (Target.views s) t.toNative ∧
      c.fromNative = bodyOf (Target.views s) t.fromNative ∧
      t.transferField f = .ok field ∧ field ∈ transfers.fields ∧
      ∀ sc : Scope, ∃ storing reading,
        bodyTrace? (t.toNative 0 f).stmts sc = some storing ∧
        bodyTrace? (t.fromNative 0 f).stmts sc = some reading ∧
        AgreesOnLayout sc.machine t f e dims field (sc.present f.site.field) storing reading := by
  obtain ⟨⟨e, rfl⟩, valid⟩ := structCode_array haccepted f hf element dims hshape
  obtain ⟨c, transfers, hbodies, htransfers, hunits⟩ := structCode_cases haccepted
  have hfields : (Target.views s).mapM t.transferField = .ok transfers.fields := by
    simp only [Target.transferStruct, except_bind_ok_iff] at htransfers
    obtain ⟨fields, hfields, hresult⟩ := htransfers
    cases hresult
    exact hfields
  obtain ⟨field, hmem, hfield⟩ := except_mapM_mem _ _ _ hfields f hf
  refine ⟨e, c, transfers, field, rfl, hunits, hbodies.toNative, hbodies.fromNative, hfield, hmem, ?_⟩
  intro sc
  exact ⟨_, _, t.trace_toNative f e dims 0 sc valid hshape,
    t.trace_fromNative f e dims 0 sc valid hshape,
    agreesOnLayout sc.machine t f e dims valid field hfield hshape (sc.present f.site.field)⟩

theorem points_native_layout :
    ∃ code, Lidar.target.structCode false Lidar.frame = .ok code ∧
      Lidar.points ∈ Target.views Lidar.frame ∧
      Lidar.points.shape = .array (.struct Lidar.point) [2, 2] ∧
      ∃ field storing reading, Lidar.target.transferField Lidar.points = .ok field ∧
        field.marshalAs = none ∧ field.type = .intPtr ∧
        bodyTrace? (Lidar.target.toNative 0 Lidar.points).stmts
          (.start Radar.machine fun _ => true) = some storing ∧
        bodyTrace? (Lidar.target.fromNative 0 Lidar.points).stmts
          (.start Radar.machine fun _ => true) = some reading ∧
        storing.flatMap Event.reservations =
          [(.element .transfer "points" [], .named "Lidar.Point_Native", 64)] ∧
        storing.flatMap Event.writes =
          [0, 16, 32, 48].map (Spot.slot "points" (.named "Lidar.Point_Native")) ∧
        reading.flatMap Event.assigns =
          [[0, 0], [0, 1], [1, 0], [1, 1]].map fun idx =>
            .element .value "points" (idx.map ([·])) := by
  have hcode : ∃ code, Lidar.target.structCode false Lidar.frame = .ok code := ⟨_, rfl⟩
  obtain ⟨code, hcode⟩ := hcode
  obtain ⟨e, _, _, field, hshape, _, _, _, hfield, _, htraces⟩ :=
    array_native_layout hcode Lidar.points Lidar.points_mem (.struct Lidar.point) [2, 2] rfl
  obtain rfl : e = .struct Lidar.point := by
    cases e <;> cases hshape
    rfl
  obtain ⟨storing, reading, hstoring, hreading, agrees⟩ :=
    htraces (.start Radar.machine fun _ => true)
  have hout : (Element.struct Lidar.point).GoesOutOfLine [2, 2] := ⟨by decide, _, rfl⟩
  have hfits : FitsBuffer Radar.machine Lidar.target (.struct Lidar.point) [2, 2] :=
    fun _ => by decide
  have layout := agrees.outOfLine hout
  have slots := agrees.slots hout hfits
  refine ⟨code, hcode, Lidar.points_mem, rfl, field, storing, reading, hfield, layout.marshalling,
    layout.type, hstoring, hreading, ?_, ?_, (agrees.reads fun _ => rfl).assigns⟩
  · have hbuffer : storing.flatMap Event.reservations = [(.element .transfer "points" [],
        .named "Lidar.Point_Native", int32 ((16 : Nat) * (4 : Nat)))] := layout.buffer
    rw [hbuffer, show int32 ((16 : Nat) * (4 : Nat)) = 64 by decide]
  · have hplaces : (List.range [2, 2].prod).map (Lidar.target.nativeItem Radar.machine Lidar.points
        (.struct Lidar.point) [2, 2]) = (List.range [2, 2].prod).map fun (position : Nat) =>
          .slot "points" (.named "Lidar.Point_Native") (position * 16 : Nat) :=
      List.map_congr_left fun position hposition =>
        slots.places position (List.mem_range.mp hposition)
    exact agrees.stores.writes.trans hplaces

/-- The size of a buffer is not checked. Here it is 0 bytes for 131072 slots, and the slots of two
elements are at one place. -/
theorem tiles_share_slots :
    ∃ code, Atlas.target.structCode false Atlas.chart = .ok code ∧
      Atlas.tiles ∈ Target.views Atlas.chart ∧
      Atlas.tiles.shape = .array (.struct Atlas.tile) [256, 512] ∧
      ∃ storing, bodyTrace? (Atlas.target.toNative 0 Atlas.tiles).stmts
          (.start Atlas.machine fun _ => true) = some storing ∧
        storing.flatMap Event.reservations =
          [(.element .transfer "tiles" [], .named "Atlas.Tile_Native", 0)] ∧
        ¬ (storing.flatMap Event.writes).Nodup := by
  have hvalid : ValidDims [256, 512] := ⟨by simp, by simp, by decide⟩
  have hshape : Atlas.tiles.shape = .array (.struct Atlas.tile) [256, 512] := rfl
  have htrace := Atlas.target.trace_toNative Atlas.tiles (.struct Atlas.tile) [256, 512] 0
    (.start Atlas.machine fun _ => true) hvalid hshape
  have hbuffer := Atlas.target.toNativeEvents_fresh Atlas.machine Atlas.tiles (.struct Atlas.tile)
    [256, 512] Event.reservations (fun _ _ => rfl) (fun _ _ => rfl) (fun _ _ _ => rfl) fun _ => rfl
  have hbytes : int32 ((65536 : Nat) * (131072 : Nat)) = 0 := by decide
  have hoffset : int32 ((65536 : Nat) * (65536 : Nat)) = int32 ((0 : Nat) * (65536 : Nat)) := by
    decide
  refine ⟨_, rfl, .head _, hshape, _, htrace, ?_, ?_⟩
  · have hreserved : (Atlas.target.toNativeEvents Atlas.machine Atlas.tiles (.struct Atlas.tile)
        [256, 512]).flatMap Event.reservations = [(.element .transfer "tiles" [],
          .named "Atlas.Tile_Native", int32 ((65536 : Nat) * (131072 : Nat)))] := hbuffer
    rw [← hbytes]
    exact hreserved
  have hwrites := Atlas.target.toNativeEvents_writes Atlas.machine Atlas.tiles (.struct Atlas.tile)
    [256, 512] hvalid
  have hsame : Atlas.target.nativeItem Atlas.machine Atlas.tiles (.struct Atlas.tile) [256, 512] 0 =
      Atlas.target.nativeItem Atlas.machine Atlas.tiles (.struct Atlas.tile) [256, 512] 65536 :=
    congrArg (Spot.slot "tiles" (.named "Atlas.Tile_Native")) hoffset.symm
  rw [show (Scope.start Atlas.machine fun _ => true).machine = Atlas.machine from rfl, hwrites]
  intro hnodup
  have hinj := List.inj_on_of_nodup_map hnodup (List.mem_range.mpr (by decide))
    (List.mem_range.mpr (by decide)) hsame
  cases hinj

end InteropGen

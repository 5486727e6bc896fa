import InteropGen.Proofs.Precision

/-!
# What generated code spells

The names in generated code come from declarations. They are spelled in two ways: the path of a type
as it is, a declared name as an identifier, which escapes a keyword. `Spells` says that everything
an expression, a statement or a body spells is of a given kind.

* `loopNest_spells` and its like — the parts that methods are built of;
* `Target.toNative_spells` and its like — a field spells its own name, and the value and transfer
  types of what it refers to.
-/

set_option autoImplicit false

namespace InteropGen

/-- A place in generated code where a name from a declaration is spelled. -/
inductive Spelling where
  /-- A path, as it is. -/
  | path (text : String)
  /-- A declared name, escaped if it is a keyword. -/
  | name (name : String)
  deriving DecidableEq, Repr

namespace CSharp

variable (P : Spelling → Prop)

/-- Every path in the type is of the kind. -/
@[simp] def Ty.Spells : Ty → Prop
  | .named path => P (.path path)
  | .array element _ | .listInterface element | .list element => element.Spells
  | .builtin _ | .string | .intPtr => True

@[simp] def Function.Spells : Function → Prop
  | .ptrToStructure type | .sizeOf type | .releaseNative type => type.Spells P
  | _ => True

mutual

/-- Everything the expression spells is of the kind. What a text given as it is spells is not
known. -/
@[simp] def Expr.Spells : Expr → Prop
  | .field _ name => P (.name name)
  | .spelled _ => False
  | .var _ | .nat _ | .constant _ => True
  | .paren e | .listCount e | .arrayLength e | .byRef e => e.Spells
  | .cast type e | .uncheckedCast type e => type.Spells P ∧ e.Spells
  | .index base indices => base.Spells ∧ AllSpell indices
  | .binary _ left right => left.Spells ∧ right.Spells
  | .sum terms => AllSpell terms
  | .conditional condition whenTrue whenFalse =>
    condition.Spells ∧ whenTrue.Spells ∧ whenFalse.Spells
  | .call f arguments => f.Spells P ∧ AllSpell arguments
  | .invoke receiver _ arguments => receiver.Spells ∧ AllSpell arguments
  | .defaultOf type => type.Spells P
  | .newObject type arguments => type.Spells P ∧ AllSpell arguments
  | .newArray element _ _ => element.Spells P

@[simp] def AllSpell : List Expr → Prop
  | [] => True
  | e :: es => e.Spells ∧ AllSpell es

end

mutual

/-- Everything the statement spells is of the kind. -/
@[simp] def Stmt.Spells : Stmt → Prop
  | .assign place value => place.Spells P ∧ value.Spells P
  | .declare type _ value => type.Spells P ∧ value.Spells P
  | .run call => call.Spells P
  | .block body => BodySpells body
  | .countUp _ bound body => bound.Spells P ∧ BodySpells body
  | .when condition body => condition.Spells P ∧ BodySpells body
  | .forEach type _ list body => type.Spells P ∧ list.Spells P ∧ BodySpells body

@[simp] def BodySpells : List Stmt → Prop
  | [] => True
  | s :: rest => s.Spells ∧ BodySpells rest

end

variable {P}

theorem allSpell_append (a b : List Expr) : AllSpell P (a ++ b) ↔ AllSpell P a ∧ AllSpell P b := by
  induction a with
  | nil => simp
  | cons e es ih => simp [ih, and_assoc]

theorem bodySpells_append (a b : List Stmt) :
    BodySpells P (a ++ b) ↔ BodySpells P a ∧ BodySpells P b := by
  induction a with
  | nil => simp
  | cons s rest ih => simp [ih, and_assoc]

theorem bodySpells_flatMap {α : Type} (items : List α) (body : α → List Stmt)
    (h : ∀ item ∈ items, BodySpells P (body item)) : BodySpells P (items.flatMap body) := by
  induction items with
  | nil => trivial
  | cons item rest ih =>
    obtain ⟨hitem, hrest⟩ := List.forall_mem_cons.mp h
    rw [List.flatMap_cons, bodySpells_append]
    exact ⟨hitem, ih hrest⟩

end CSharp

open CSharp

section
variable {P : Spelling → Prop}

/-! ### Places and loops -/

theorem jaggedAccess_spells (base : Expr) (indices : List Expr) (hbase : base.Spells P)
    (hindices : AllSpell P indices) : (jaggedAccess base indices).Spells P := by
  induction indices generalizing base with
  | nil => exact hbase
  | cons i rest ih => exact ih _ ⟨hbase, hindices.1, trivial⟩ hindices.2

theorem elementAt_spells (layout : Layout) (base : Expr) (indices : List Expr)
    (hbase : base.Spells P) (hindices : AllSpell P indices) :
    (layout.elementAt base indices).Spells P := by
  cases layout with
  | rectangular => exact ⟨hbase, hindices⟩
  | jagged => exact jaggedAccess_spells base indices hbase hindices

theorem flatIndex_spells (dims : List Nat) (indices : List Expr) (h : AllSpell P indices) :
    (flatIndex dims indices).Spells P := by
  unfold flatIndex Expr.Spells
  generalize strides dims = weights
  induction indices generalizing weights with
  | nil => cases weights <;> trivial
  | cons i rest ih =>
    cases weights with
    | nil => trivial
    | cons weight more =>
      have hterm : (weighted weight i).Spells P := by
        unfold weighted
        split
        · exact h.1
        · exact ⟨h.1, trivial⟩
      exact ⟨hterm, ih h.2 more⟩

theorem slotOffset_spells (dims : List Nat) (indices : List Expr) (h : AllSpell P indices) :
    (slotOffset dims indices).Spells P :=
  ⟨flatIndex_spells dims indices h, trivial⟩

/-- The array whose rows are allocated and the type of its elements spell nothing else. -/
def RowsSpell (P : Spelling → Prop) (rows : Option RowAllocation) : Prop :=
  ∀ r ∈ rows, r.array.Spells P ∧ r.elementType.Spells P

theorem rows?_spell (layout : Layout) (array : Expr) (elementType : Ty) (dims : List Nat)
    (harray : array.Spells P) (htype : elementType.Spells P) :
    RowsSpell P (layout.rows? array elementType dims) := by
  intro r hr
  unfold Layout.rows? at hr
  split at hr
  · cases hr
    exact ⟨harray, htype⟩
  · cases hr

theorem rowsSpell_none : RowsSpell P none := nofun

theorem row_spells (rows : Option RowAllocation) (hrows : RowsSpell P rows) (indices : List Expr)
    (hindices : AllSpell P indices) : BodySpells P (RowAllocation.atLevel rows indices) := by
  cases rows with
  | none => trivial
  | some r =>
    obtain ⟨harray, htype⟩ := hrows r rfl
    simp only [RowAllocation.atLevel]
    split
    · exact ⟨⟨jaggedAccess_spells r.array indices harray hindices, htype⟩, trivial⟩
    · trivial

/-- A nest spells what its bodies and its row allocations spell. -/
theorem loopNest_spells (depth : Nat) (dims : List Nat) (rows : Option RowAllocation)
    (hrows : RowsSpell P rows) (body : List Expr → List Stmt)
    (hbody : ∀ indices, AllSpell P indices → BodySpells P (body indices)) :
    BodySpells P (loopNest depth dims rows body) := by
  have hnest : ∀ depth outer, AllSpell P outer →
      BodySpells P (loopNestFrom rows body depth outer dims) := by
    induction dims with
    | nil => exact fun depth outer houter => hbody outer houter
    | cons d rest ih =>
      intro depth outer houter
      have hcounters : AllSpell P (outer ++ [counter depth]) :=
        (allSpell_append _ _).mpr ⟨houter, trivial, trivial⟩
      refine ⟨⟨trivial, (bodySpells_append _ _).mpr ⟨?_, ?_⟩⟩, trivial⟩
      · exact row_spells rows hrows _ hcounters
      · exact ih (depth + 1) _ hcounters
  exact hnest depth [] trivial

theorem allRows_spell (depth : Nat) (rows : Option RowAllocation) (hrows : RowsSpell P rows) :
    BodySpells P (rows.elim [] (allRows depth)) := by
  cases rows with
  | none => trivial
  | some r =>
    rw [Option.elim_some]
    unfold allRows
    split
    · trivial
    · exact loopNest_spells depth _ _ hrows _ fun _ _ => trivial

/-! ### Scalars, slots and allocations -/

theorem primitiveToTransfer_spells (platform : Platform) (kind : PrimitiveKind) (x : Expr)
    (hx : x.Spells P) : (platform.primitiveToTransfer kind x).Spells P := by
  cases kind with
  | longdouble => exact ⟨trivial, hx⟩
  | wchar => cases platform <;> first | exact hx | exact ⟨trivial, hx⟩
  | _ => exact hx

theorem primitiveFromTransfer_spells (platform : Platform) (kind : PrimitiveKind) (x : Expr)
    (hx : x.Spells P) : (platform.primitiveFromTransfer kind x).Spells P := by
  cases kind with
  | longdouble => exact ⟨trivial, hx⟩
  | wchar => cases platform <;> first | exact hx | exact ⟨trivial, hx⟩
  | _ => exact hx

theorem stringToNative_spells (platform : Platform) (kind : StringKind) (x : Expr)
    (hx : x.Spells P) : (platform.stringToNative kind x).Spells P := by
  simp [Platform.stringToNative, hx]

theorem stringFromNative_spells (platform : Platform) (kind : StringKind) (x : Expr)
    (hx : x.Spells P) : (platform.stringFromNative kind x).Spells P := by
  simp [Platform.stringFromNative, hx]

theorem bounded_spells (count : Expr) (maxBound : Nat) (h : count.Spells P) :
    (bounded count maxBound).Spells P := by
  unfold bounded
  split
  · exact h
  · exact ⟨trivial, h, trivial, trivial⟩

theorem arrayAllocation_spells (layout : Layout) (element : Ty) (dims : List Nat)
    (h : element.Spells P) : (layout.arrayAllocation element dims).Spells P := by
  cases layout <;> exact h

theorem Layout.arrayType_spells (layout : Layout) (element : Ty) (rank : Nat)
    (h : element.Spells P) : (layout.arrayType element rank).Spells P := by
  cases layout with
  | rectangular => exact h
  | jagged =>
    induction rank with
    | zero => exact h
    | succ n ih => exact ih

theorem listAllocation_spells (element : Ty) (maxBound : Nat) (h : element.Spells P) :
    (listAllocation element maxBound).Spells P := by
  unfold listAllocation
  split
  · exact ⟨h, trivial⟩
  · exact ⟨h, trivial, trivial⟩

/-- The types of the element on either side are of the kind. -/
structure Element.Admitted (P : Spelling → Prop) (t : Target) (e : Element) : Prop where
  value : e.valueType.Spells P
  transfer : (t.elementTransferType e).Spells P

theorem Element.initialValue_spells (e : Element) (h : e.valueType.Spells P) :
    e.initialValue.Spells P := by
  cases e with
  | primitive kind => cases kind <;> trivial
  | string kind => trivial
  | enum en => exact h
  | struct s => exact ⟨h, trivial⟩

namespace Target

variable (t : Target) (e : Element)

theorem slotSize_spells (he : e.Admitted P t) : (t.slot e).size.Spells P := by
  cases e with
  | primitive kind =>
    cases kind with
    | wchar =>
      simp only [slot, Platform.primitiveSlot]
      split <;> trivial
    | _ => trivial
  | string kind => trivial
  | enum en => trivial
  | struct s => exact ⟨he.transfer, trivial⟩

theorem slotWrite_spells (he : e.Admitted P t) (pointer offset value : Expr)
    (hpointer : pointer.Spells P) (hoffset : offset.Spells P) (hvalue : value.Spells P) :
    ((t.slot e).write pointer offset value).Spells P := by
  cases e with
  | primitive kind =>
    cases kind with
    | wchar =>
      simp only [slot, Platform.primitiveSlot]
      split <;> simp [Slot.write, SlotCoding.encode, hpointer, hoffset, hvalue]
    | _ =>
      simp [slot, Platform.primitiveSlot, Slot.write, SlotCoding.encode, hpointer, hoffset, hvalue]
  | _ => simp [slot, Slot.write, SlotCoding.encode, hpointer, hoffset, hvalue]

theorem slotRead_spells (he : e.Admitted P t) (pointer offset : Expr) (hpointer : pointer.Spells P)
    (hoffset : offset.Spells P) : ((t.slot e).read pointer offset).Spells P := by
  cases e with
  | primitive kind =>
    cases kind with
    | wchar =>
      simp only [slot, Platform.primitiveSlot]
      split <;> simp [Slot.read, SlotCoding.decode, hpointer, hoffset]
    | _ => simp [slot, Platform.primitiveSlot, Slot.read, SlotCoding.decode, hpointer, hoffset]
  | string kind => simp [slot, Slot.read, SlotCoding.decode, hpointer, hoffset]
  | enum en =>
    have hvalue : (valueTypeOf en.name).Spells P := he.value
    simp [slot, Slot.read, SlotCoding.decode, hpointer, hoffset, hvalue]
  | struct s =>
    have htransfer : (t.transferTypeOf s.name).Spells P := he.transfer
    simp [slot, Slot.read, hpointer, hoffset, htransfer]

/-! ### Conversions of one field -/

theorem elementToNative_spells (he : e.Admitted P t) (value place : Expr) (hvalue : value.Spells P)
    (hplace : place.Spells P) : BodySpells P (t.elementToNative e value place) := by
  cases e with
  | primitive kind =>
    have hcast := primitiveToTransfer_spells t.platform kind value hvalue
    simp [elementToNative, hplace, hcast]
  | string kind =>
    have htext := stringToNative_spells t.platform kind value hvalue
    simp [elementToNative, storeString, hplace, htext]
  | enum en =>
    have htransfer : (t.transferTypeOf en.name).Spells P := he.transfer
    simp [elementToNative, enumToTransfer, hplace, hvalue, htransfer]
  | struct s => simp [elementToNative, convertStruct, hplace, hvalue]

theorem storeInSlot_spells (he : e.Admitted P t) (buffer offset value : Expr)
    (hbuffer : buffer.Spells P) (hoffset : offset.Spells P) (hvalue : value.Spells P) :
    BodySpells P (t.storeInSlot e buffer offset value) := by
  have hwrite : ∀ x : Expr, x.Spells P → ((t.slot e).write buffer offset x).Spells P :=
    fun x hx => t.slotWrite_spells e he buffer offset x hbuffer hoffset hx
  cases e with
  | primitive kind => exact ⟨hwrite value hvalue, trivial⟩
  | enum en => exact ⟨hwrite value hvalue, trivial⟩
  | string kind =>
    have htext := stringToNative_spells t.platform kind value hvalue
    have htail := hwrite (.var .text) trivial
    simp [storeInSlot, stageToNative, htext, htail]
  | struct s =>
    have htransfer : (t.transferTypeOf s.name).Spells P := he.transfer
    have htail := hwrite (.var .element) trivial
    simp [storeInSlot, stageToNative, convertStruct, hvalue, htransfer, htail]

theorem elementFromNative_spells (he : e.Admitted P t) (place native : Expr)
    (hplace : place.Spells P) (hnative : native.Spells P) : BodySpells P (t.elementFromNative e place native) := by
  cases e with
  | primitive kind =>
    have hcast := primitiveFromTransfer_spells t.platform kind native hnative
    simp [elementFromNative, hplace, hcast]
  | string kind =>
    have htext := stringFromNative_spells t.platform kind native hnative
    simp [elementFromNative, hplace, htext]
  | enum en =>
    have hvalue : (valueTypeOf en.name).Spells P := he.value
    simp [elementFromNative, enumFromTransfer, hplace, hnative, hvalue]
  | struct s =>
    have hvalue : (valueTypeOf s.name).Spells P := he.value
    simp [elementFromNative, readStruct, hplace, hnative, hvalue]

theorem loadFromSlot_spells (he : e.Admitted P t) (buffer offset : Expr) (use : Expr → Stmt)
    (hbuffer : buffer.Spells P) (hoffset : offset.Spells P)
    (huse : ∀ x, x.Spells P → (use x).Spells P) :
    BodySpells P (t.loadFromSlot e buffer offset use) := by
  have hread := t.slotRead_spells e he buffer offset hbuffer hoffset
  cases e with
  | primitive kind => exact ⟨huse _ hread, trivial⟩
  | enum en => exact ⟨huse _ hread, trivial⟩
  | string kind =>
    have htext := huse _ (stringFromNative_spells t.platform kind (.var .text) trivial)
    simp [loadFromSlot, stageFromNative, hread, htext]
  | struct s =>
    have hvalue : (valueTypeOf s.name).Spells P := he.value
    have htail := huse (.var .element) trivial
    simp [loadFromSlot, stageFromNative, hread, hvalue, htail]

end Target

/-- What a field spells is of the kind: its own name, and the types of its element. -/
structure FieldView.Admitted (P : Spelling → Prop) (t : Target) (f : FieldView) : Prop where
  name : P (.name f.site.field)
  element : ∀ e : Element, f.shape.item = e.shape → e.Admitted P t

theorem FieldView.Admitted.places {t : Target} {f : FieldView} (h : f.Admitted P t) :
    f.value.Spells P ∧ f.native.Spells P :=
  ⟨h.name, h.name⟩

namespace Target

variable (t : Target) (depth : Nat) (f : FieldView) (e : Element)

theorem inlineArrayToNative_spells (hf : f.Admitted P t) (he : e.Admitted P t) (dims : List Nat)
    (length : Nat) : BodySpells P (t.inlineArrayToNative depth f e dims length) := by
  obtain ⟨hvalue, hnative⟩ := hf.places
  have hfresh : (Stmt.assign f.native (.newArray (t.elementTransferType e) [length] 0)).Spells P :=
    ⟨hnative, he.transfer⟩
  unfold inlineArrayToNative
  split
  · exact ⟨hfresh, ⟨trivial, hvalue, hnative, trivial, trivial⟩, trivial⟩
  · refine ⟨hfresh, loopNest_spells depth dims none rowsSpell_none _ fun indices hindices => ?_⟩
    exact t.elementToNative_spells e he _ _ (elementAt_spells _ _ _ hvalue hindices)
      ⟨hnative, flatIndex_spells dims indices hindices, trivial⟩

theorem outOfLineArrayToNative_spells (hf : f.Admitted P t) (he : e.Admitted P t) (dims : List Nat)
    (length : Nat) : BodySpells P (t.outOfLineArrayToNative depth f e dims length) := by
  obtain ⟨hvalue, hnative⟩ := hf.places
  have hsize := t.slotSize_spells e he
  have hslots : BodySpells P (loopNest depth dims none fun indices =>
      t.storeInSlot e f.native (slotOffset dims indices) (t.layout.elementAt f.value indices)) :=
    loopNest_spells depth dims none rowsSpell_none _ fun indices hindices =>
      t.storeInSlot_spells e he _ _ _ hnative (slotOffset_spells dims indices hindices)
        (elementAt_spells _ _ _ hvalue hindices)
  simp [outOfLineArrayToNative, allocate, hsize, hnative, hslots]

theorem sequenceToNative_spells (hf : f.Admitted P t) (he : e.Admitted P t) (maxBound : Nat) :
    BodySpells P (t.sequenceToNative depth f e maxBound) := by
  obtain ⟨hvalue, hnative⟩ := hf.places
  have hsize := t.slotSize_spells e he
  have hcount := bounded_spells (P := P) (.listCount f.value) maxBound hvalue
  have hslots := t.storeInSlot_spells e he f.native (sequenceOffset (counter depth))
    (.index f.value [counter depth]) hnative (by simp [sequenceOffset, counter])
    ⟨hvalue, trivial, trivial⟩
  simp [sequenceToNative, allocate, countedLoop, hsize, hvalue, hnative, hcount, hslots]

/-- What a field spells in `ToNative`. -/
theorem toNative_spells (hf : f.Admitted P t) (h : f.shape.Transferable t.layout) :
    BodySpells P (t.toNative depth f).stmts := by
  obtain ⟨hvalue, hnative⟩ := hf.places
  obtain ⟨e, hshape⟩ | ⟨e, dims, hshape, valid⟩ | ⟨e, maxBound, hshape, bridges⟩ := h.cases
  · have he := hf.element e (by rw [hshape, Shape.item_element])
    rw [t.toNative_element depth f e hshape]
    exact t.elementToNative_spells e he _ _ hvalue hnative
  · have he := hf.element e (by rw [hshape, Shape.item])
    rw [t.toNative_array depth f e dims hshape valid]
    cases e.transfer dims with
    | inline length => exact t.inlineArrayToNative_spells depth f e hf he dims length
    | outOfLine length => exact t.outOfLineArrayToNative_spells depth f e hf he dims length
  · have he := hf.element e (by rw [hshape, Shape.item])
    rw [t.toNative_sequence depth f e maxBound hshape bridges]
    exact t.sequenceToNative_spells depth f e hf he maxBound

theorem inlineArrayFromNative_spells (hf : f.Admitted P t) (he : e.Admitted P t) (dims : List Nat)
    (length : Nat) : BodySpells P (t.inlineArrayFromNative depth f e dims length) := by
  obtain ⟨hvalue, hnative⟩ := hf.places
  unfold inlineArrayFromNative
  split
  · exact ⟨⟨trivial, hnative, hvalue, trivial, trivial⟩, trivial⟩
  · refine loopNest_spells depth dims _ (rows?_spell _ _ _ _ hvalue he.value) _
      fun indices hindices => ?_
    exact t.elementFromNative_spells e he _ _ (elementAt_spells _ _ _ hvalue hindices)
      ⟨hnative, flatIndex_spells dims indices hindices, trivial⟩

theorem outOfLineArrayFromNative_spells (hf : f.Admitted P t) (he : e.Admitted P t)
    (dims : List Nat) : BodySpells P (t.outOfLineArrayFromNative depth f e dims) := by
  obtain ⟨hvalue, hnative⟩ := hf.places
  have hsize := t.slotSize_spells e he
  have hrows : RowsSpell P (t.layout.rows? f.value e.valueType dims) :=
    rows?_spell _ _ _ _ hvalue he.value
  have hslots : BodySpells P (loopNest depth dims none fun indices =>
      t.loadFromSlot e f.native (slotOffset dims indices) fun staged =>
        .assign (t.layout.elementAt f.value indices) staged) :=
    loopNest_spells depth dims none rowsSpell_none _ fun indices hindices =>
      t.loadFromSlot_spells e he _ _ _ hnative (slotOffset_spells dims indices hindices)
        fun x hx => ⟨elementAt_spells _ _ _ hvalue hindices, hx⟩
  refine (bodySpells_append _ _).mpr ⟨allRows_spell depth _ hrows, ?_⟩
  simp [isHandle, hnative, hsize, hslots]

theorem sequenceFromNative_spells (hf : f.Admitted P t) (he : e.Admitted P t) (maxBound : Nat)
    (fresh : Expr) (hfresh : fresh.Spells P) :
    BodySpells P (t.sequenceFromNative depth f e maxBound fresh) := by
  obtain ⟨hvalue, hnative⟩ := hf.places
  have hsize := t.slotSize_spells e he
  have hcount := bounded_spells (P := P) (.call (.read .int32) [f.native, .nat 0]) maxBound
    ⟨trivial, hnative, trivial, trivial⟩
  have hslots := t.loadFromSlot_spells e he f.native (sequenceOffset (counter depth))
    (fun staged => .run (.invoke f.value .add [staged])) hnative (by simp [sequenceOffset, counter])
    fun x hx => ⟨hvalue, hx, trivial⟩
  simp [sequenceFromNative, isHandle, countedLoop, hfresh, hsize, hvalue, hnative, hcount, hslots]

/-- What a field spells in `FromNative`. -/
theorem fromNative_spells (hf : f.Admitted P t) (h : f.shape.Transferable t.layout) :
    BodySpells P (t.fromNative depth f).stmts := by
  obtain ⟨hvalue, hnative⟩ := hf.places
  obtain ⟨e, hshape⟩ | ⟨e, dims, hshape, valid⟩ | ⟨e, maxBound, hshape, bridges⟩ := h.cases
  · have he := hf.element e (by rw [hshape, Shape.item_element])
    rw [t.fromNative_element depth f e hshape]
    exact t.elementFromNative_spells e he _ _ hvalue hnative
  · have he := hf.element e (by rw [hshape, Shape.item])
    rw [t.fromNative_array depth f e dims hshape valid]
    refine ⟨⟨hvalue, arrayAllocation_spells _ _ _ he.value⟩, ?_⟩
    cases e.transfer dims with
    | inline length => exact t.inlineArrayFromNative_spells depth f e hf he dims length
    | outOfLine length => exact t.outOfLineArrayFromNative_spells depth f e hf he dims
  · have he := hf.element e (by rw [hshape, Shape.item])
    rw [t.fromNative_sequence depth f e maxBound hshape bridges]
    exact t.sequenceFromNative_spells depth f e hf he maxBound _
      (listAllocation_spells _ _ he.value)

/-- What a field spells in the constructor. -/
theorem initial_spells (hf : f.Admitted P t) (h : f.shape.Transferable t.layout) :
    BodySpells P (t.initial depth f).stmts := by
  obtain ⟨hvalue, _⟩ := hf.places
  obtain ⟨e, hshape⟩ | ⟨e, dims, hshape, valid⟩ | ⟨e, maxBound, hshape, _⟩ := h.cases
  · have he := hf.element e (by rw [hshape, Shape.item_element])
    rw [t.initial_element depth f e hshape]
    exact ⟨⟨hvalue, e.initialValue_spells he.value⟩, trivial⟩
  · have he := hf.element e (by rw [hshape, Shape.item])
    have hrows : RowsSpell P (t.layout.rows? f.value e.valueType dims) :=
      rows?_spell _ _ _ _ hvalue he.value
    rw [t.initial_array depth f e dims hshape valid]
    refine ⟨⟨hvalue, arrayAllocation_spells _ _ _ he.value⟩, ?_⟩
    split
    · unfold fillArray
      cases hfill : e.fill? with
      | none => exact allRows_spell depth _ hrows
      | some fill =>
        have hinitial : fill = e.initialValue := by
          cases e <;> cases hfill <;> rfl
        refine loopNest_spells depth dims _ hrows _ fun indices hindices => ?_
        rw [hinitial]
        exact ⟨⟨elementAt_spells _ _ _ hvalue hindices, e.initialValue_spells he.value⟩, trivial⟩
    · trivial
  · have he := hf.element e (by rw [hshape, Shape.item])
    rw [t.initial_sequence depth f e maxBound hshape]
    exact ⟨⟨hvalue, listAllocation_spells _ _ he.value⟩, trivial⟩

theorem releaseStruct_spells (s : StructType) (native : Expr)
    (hvalue : (valueTypeOf s.name).Spells P) (hnative : native.Spells P) : (releaseStruct s native).Spells P :=
  ⟨hvalue, hnative, trivial, trivial⟩

/-- What a field spells in `ReleaseNative`. -/
theorem releaseNative_spells (hf : f.Admitted P t) (h : f.shape.Transferable t.layout) :
    BodySpells P (InteropGen.releaseNative depth f).stmts := by
  obtain ⟨_, hnative⟩ := hf.places
  obtain ⟨e, hshape⟩ | ⟨e, dims, hshape, valid⟩ | ⟨e, maxBound, hshape, _⟩ := h.cases
  · have he := hf.element e (by rw [hshape, Shape.item_element])
    rw [release_element depth f e hshape]
    cases e with
    | string kind => exact ⟨⟨hnative, trivial⟩, trivial⟩
    | struct s => exact ⟨releaseStruct_spells s _ he.value hnative, trivial⟩
    | _ => trivial
  · have he := hf.element e (by rw [hshape, Shape.item])
    rw [release_array depth f e dims hshape valid]
    cases e.transfer dims with
    | outOfLine length => exact ⟨⟨hnative, trivial⟩, trivial⟩
    | inline length =>
      cases e with
      | string kind => simp [releaseArray, whenPresent, hnative]
      | struct s =>
        have hnest : BodySpells P (loopNest depth [length] none fun indices =>
            [releaseStruct s (.index f.native indices)]) :=
          loopNest_spells depth [length] none rowsSpell_none _ fun indices hindices =>
            ⟨releaseStruct_spells s _ he.value ⟨hnative, hindices⟩, trivial⟩
        simp [releaseArray, whenPresent, hnative, hnest]
      | _ => trivial
  · rw [release_sequence depth f e maxBound hshape]
    exact ⟨⟨hnative, trivial⟩, trivial⟩

theorem boundArgument_spells (maxBound : Nat) : AllSpell P (boundArgument maxBound) := by
  unfold boundArgument
  split <;> simp

/-- What a field spells in `Encode`. -/
theorem encode_spells (hf : f.Admitted P t) (h : f.shape.Encodable) :
    BodySpells P (t.encode depth f).stmts := by
  obtain ⟨hvalue, _⟩ := hf.places
  obtain ⟨e, tag, hshape, htag⟩ | ⟨en, hshape⟩ | ⟨e, tag, dims, hshape, htag, valid⟩ |
    ⟨e, tag, maxBound, hshape, htag⟩ := h.cases
  · rw [t.encode_scalar depth f e tag hshape htag]
    simp [writeCall, hvalue]
  · rw [t.encode_enum depth f en hshape]
    simp [writeCall, hvalue]
  · rw [t.encode_array depth f e tag dims hshape htag valid]
    unfold encodeArray
    split
    · refine loopNest_spells depth dims none rowsSpell_none _ fun indices hindices => ?_
      simp [writeCall, elementAt_spells t.layout f.value indices hvalue hindices]
    · simp [writeCall, hvalue]
  · rw [t.encode_sequence depth f e tag maxBound hshape htag]
    simp [writeCall, hvalue, boundArgument_spells]

/-- What a field spells in `Decode`. -/
theorem decode_spells (hf : f.Admitted P t) (h : f.shape.Encodable) :
    BodySpells P (t.decode depth f).stmts := by
  obtain ⟨hvalue, _⟩ := hf.places
  obtain ⟨e, tag, hshape, htag⟩ | ⟨en, hshape⟩ | ⟨e, tag, dims, hshape, htag, valid⟩ |
    ⟨e, tag, maxBound, hshape, htag⟩ := h.cases
  · rw [t.decode_scalar depth f e tag hshape htag]
    simp [readCall, hvalue]
  · have he := hf.element (.enum en) (by rw [hshape]; rfl)
    have htype : (valueTypeOf en.name).Spells P := he.value
    rw [t.decode_enum depth f en hshape]
    simp [enumFromTransfer, hvalue, htype]
  · have he := hf.element e (by rw [hshape, Shape.item])
    rw [t.decode_array depth f e tag dims hshape htag valid]
    unfold decodeArray
    split
    · refine ⟨⟨hvalue, arrayAllocation_spells _ _ _ he.value⟩, ?_⟩
      refine loopNest_spells depth dims _ (rows?_spell _ _ _ _ hvalue he.value) _
        fun indices hindices => ?_
      simp [readCall, elementAt_spells t.layout f.value indices hvalue hindices]
    · simp [readCall, hvalue]
  · rw [t.decode_sequence depth f e tag maxBound hshape htag]
    simp [readCall, hvalue, boundArgument_spells]

theorem property_spells (hf : f.Admitted P t) (h : f.shape.Transferable t.layout)
    (p : Ty × String) (hp : t.property f = .ok p) : p.1.Spells P ∧ P (.name p.2) := by
  simp only [property, except_bind_ok_iff] at hp
  obtain ⟨type, htype, hresult⟩ := hp
  cases hresult
  refine ⟨?_, hf.name⟩
  obtain ⟨e, hshape⟩ | ⟨e, dims, hshape, valid⟩ | ⟨e, maxBound, hshape, _⟩ := h.cases
  · have he := hf.element e (by rw [hshape, Shape.item_element])
    rw [hshape, t.valueType_element] at htype
    cases htype
    exact he.value
  · have he := hf.element e (by rw [hshape, Shape.item])
    rw [hshape, t.valueType_array _ e dims valid] at htype
    cases htype
    exact t.layout.arrayType_spells _ _ he.value
  · have he := hf.element e (by rw [hshape, Shape.item])
    rw [hshape, t.valueType_sequence] at htype
    cases htype
    exact he.value

theorem transferField_spells (hf : f.Admitted P t)
    (h : f.shape.Transferable t.layout) (field : TransferField)
    (hfield : t.transferField f = .ok field) : field.type.Spells P ∧ P (.name field.name) := by
  simp only [transferField, except_bind_ok_iff] at hfield
  obtain ⟨marshalAs, _, type, htype, hresult⟩ := hfield
  cases hresult
  refine ⟨?_, hf.name⟩
  unfold transferType at htype
  obtain ⟨e, hshape⟩ | ⟨e, dims, hshape, valid⟩ | ⟨e, maxBound, hshape, _⟩ := h.cases
  · have he := hf.element e (by rw [hshape, Shape.item_element])
    rw [hshape] at htype
    cases e <;> cases htype <;> exact he.transfer
  · have he := hf.element e (by rw [hshape, Shape.item])
    rw [hshape] at htype
    simp only [Element.classify_shape, arrayTransfer_of_valid f.site e dims valid, bind,
      Except.bind] at htype
    cases htransfer : e.transfer dims with
    | inline length =>
      rw [htransfer] at htype
      cases htype
      exact he.transfer
    | outOfLine length =>
      rw [htransfer] at htype
      cases htype
      trivial
  · rw [hshape] at htype
    cases htype
    trivial

end Target

end

end InteropGen

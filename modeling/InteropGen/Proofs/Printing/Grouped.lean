import InteropGen.Proofs.Printing.Values

/-!
# Generated expressions are grouped

Whatever the conversions hand to an operator binds tightly enough, or has parentheses of its own. So
the text of an expression in a generated method is read as its tree, and has its value.

* `Target.toNative_grouped` and its like — the expressions of a field, in each direction;
* `Target.structCode_grouped` — the expressions in the methods of an accepted struct;
* `Target.Readable.values_read` — what their texts are read as has the value that they are run with,
  and an assignment is read as one.
-/

set_option autoImplicit false

namespace InteropGen

open CSharp Reading

namespace CSharp

/-- An operand of any operator. -/
def Expr.Primary (e : Expr) : Prop :=
  e.Grouped ∧ 9 ≤ e.precedence

/-- An expression that may stand by itself, be assigned or be handed over by value. -/
def Expr.Standalone (e : Expr) : Prop :=
  e.Grouped ∧ 3 ≤ e.precedence

theorem Expr.Primary.standalone {e : Expr} (h : e.Primary) : e.Standalone :=
  ⟨h.1, le_trans (by decide) h.2⟩

/-- An operator between operands that bind more tightly than any other. -/
theorem Expr.Primary.binary (op : BinaryOp) {left right : Expr} (hleft : left.Primary)
    (hright : right.Primary) :
    (Expr.binary op left right).Grouped ∧ 4 ≤ (Expr.binary op left right).precedence := by
  have hop : op.operator.left ≤ 9 ∧ op.operator.right ≤ 9 ∧ 4 ≤ op.operator.level := by
    cases op <;> decide
  exact ⟨⟨hleft.1, hright.1, hop.1.trans hleft.2, hop.2.1.trans hright.2⟩, hop.2.2⟩

theorem Expr.Primary.operation (op : BinaryOp) {left right : Expr} (hleft : left.Primary)
    (hright : right.Primary) : (Expr.binary op left right).Standalone :=
  ⟨(hleft.binary op hright).1, le_trans (by decide) (hleft.binary op hright).2⟩

theorem Expr.Primary.cast {e : Expr} (h : e.Primary) {type : Ty} (htype : type.Flat) :
    (Expr.cast type e).Standalone :=
  ⟨⟨htype, h.1, le_trans (by decide) h.2⟩, (by decide : 3 ≤ 8)⟩

theorem Expr.Primary.var (name : Local) : (Expr.var name).Primary :=
  ⟨trivial, le_rfl⟩

theorem Expr.Primary.nat (n : Nat) : (Expr.nat n).Primary :=
  ⟨trivial, le_rfl⟩

theorem Expr.Primary.constant (c : Constant) : (Expr.constant c).Primary :=
  ⟨trivial, le_rfl⟩

/-- A call of a function that no type tells apart. -/
theorem Expr.Primary.call {f : Function} (hf : f.type? = none) {arguments : List Expr}
    (h : AllGrouped arguments) : (Expr.call f arguments).Primary := by
  refine ⟨⟨fun type htype => ?_, h⟩, le_rfl⟩
  rw [hf] at htype
  cases htype

theorem Expr.Primary.index {base : Expr} {indices : List Expr} (h : base.Primary)
    (hindices : AllGrouped indices) : (Expr.index base indices).Primary :=
  ⟨⟨h.1, h.2, hindices⟩, le_rfl⟩

theorem Expr.Primary.invoke {receiver : Expr} {arguments : List Expr} (h : receiver.Primary)
    (method : Method) (harguments : AllGrouped arguments) :
    (Expr.invoke receiver method arguments).Primary :=
  ⟨⟨h.1, h.2, harguments⟩, le_rfl⟩

theorem Expr.Primary.newObject {type : Ty} {arguments : List Expr} (h : type.Flat)
    (harguments : AllGrouped arguments) : (Expr.newObject type arguments).Primary :=
  ⟨⟨h, harguments⟩, le_rfl⟩

theorem allGrouped_iff (es : List Expr) : AllGrouped es ↔ ∀ e ∈ es, e.Grouped := by
  induction es with
  | nil => simp
  | cons e es ih => simp [ih]

section
variable (A : Expr → Expr → Prop) (P : Expr → Prop)

mutual

/-- The sides of every assignment are in the relation, and every other expression that the statement
is made of has the property. -/
@[simp] def Stmt.Every : Stmt → Prop
  | .assign place value => A place value
  | .declare _ _ value => P value
  | .run call => P call
  | .block body => BodyEvery body
  | .countUp _ bound body => P bound ∧ BodyEvery body
  | .when condition body => P condition ∧ BodyEvery body
  | .forEach _ _ list body => P list ∧ BodyEvery body

@[simp] def BodyEvery : List Stmt → Prop
  | [] => True
  | s :: rest => s.Every ∧ BodyEvery rest

end

variable {A P}

@[simp] theorem bodyEvery_append (a b : List Stmt) :
    BodyEvery A P (a ++ b) ↔ BodyEvery A P a ∧ BodyEvery A P b := by
  induction a with
  | nil => simp
  | cons s rest ih => simp [ih, and_assoc]

theorem bodyEvery_flatMap {α : Type} (items : List α) (body : α → List Stmt)
    (h : ∀ item ∈ items, BodyEvery A P (body item)) : BodyEvery A P (items.flatMap body) := by
  induction items with
  | nil => trivial
  | cons item rest ih =>
    obtain ⟨hitem, hrest⟩ := List.forall_mem_cons.mp h
    rw [List.flatMap_cons, bodyEvery_append]
    exact ⟨hitem, ih hrest⟩

variable {B : Expr → Expr → Prop} {Q : Expr → Prop} {S : Spelling → Prop}

mutual

theorem Stmt.Every.spelled
    (hassign : ∀ place value, A place value → place.Spells S → value.Spells S → B place value)
    (h : ∀ e, P e → e.Spells S → Q e) {s : Stmt} (hs : s.Every A P) (hspells : s.Spells S) :
    s.Every B Q := by
  cases s with
  | assign place value => exact hassign _ _ hs hspells.1 hspells.2
  | declare type name value => exact h _ hs hspells.2
  | run call => exact h _ hs hspells
  | block body => exact BodyEvery.spelled hassign h hs hspells
  | countUp depth bound body =>
    exact ⟨h _ hs.1 hspells.1, BodyEvery.spelled hassign h hs.2 hspells.2⟩
  | when condition body =>
    exact ⟨h _ hs.1 hspells.1, BodyEvery.spelled hassign h hs.2 hspells.2⟩
  | forEach type name list body =>
    exact ⟨h _ hs.1 hspells.2.1, BodyEvery.spelled hassign h hs.2 hspells.2.2⟩

theorem BodyEvery.spelled
    (hassign : ∀ place value, A place value → place.Spells S → value.Spells S → B place value)
    (h : ∀ e, P e → e.Spells S → Q e) {body : List Stmt} (hbody : BodyEvery A P body)
    (hspells : BodySpells S body) : BodyEvery B Q body := by
  cases body with
  | nil => trivial
  | cons s rest =>
    exact ⟨Stmt.Every.spelled hassign h hbody.1 hspells.1,
      BodyEvery.spelled hassign h hbody.2 hspells.2⟩

end

/-- Every expression of the statement may stand where it does. -/
abbrev Stmt.Grouped (s : Stmt) : Prop :=
  s.Every (fun place value => place.Standalone ∧ value.Standalone) Expr.Standalone

abbrev BodyGrouped (body : List Stmt) : Prop :=
  BodyEvery (fun place value => place.Standalone ∧ value.Standalone) Expr.Standalone body

end

end CSharp

section
variable {value place native base : Expr} {indices : List Expr}

/-! ### Places and loops -/

theorem jaggedAccess_primary (hbase : base.Primary) (hindices : ∀ i ∈ indices, i.Primary) :
    (jaggedAccess base indices).Primary := by
  induction indices generalizing base with
  | nil => exact hbase
  | cons i rest ih =>
    obtain ⟨hi, hrest⟩ := List.forall_mem_cons.mp hindices
    exact ih (hbase.index ⟨hi.1, trivial⟩) hrest

theorem elementAt_primary (layout : Layout) (hbase : base.Primary)
    (hindices : ∀ i ∈ indices, i.Primary) : (layout.elementAt base indices).Primary := by
  cases layout with
  | rectangular =>
    exact hbase.index ((allGrouped_iff _).mpr fun i hi => (hindices i hi).1)
  | jagged => exact jaggedAccess_primary hbase hindices

theorem weighted_primary (weight : Nat) {i : Expr} (hi : i.Primary) :
    (weighted weight i).Primary := by
  unfold weighted
  split
  · exact hi
  · exact ⟨(hi.operation .times (.nat weight)).1, le_rfl⟩

theorem length_strides (dims : List Nat) : (strides dims).length = dims.length := by
  induction dims with
  | nil => rfl
  | cons d rest ih =>
    cases rest with
    | nil => rfl
    | cons e more => simpa [strides] using ih

theorem forall_mem_zipWith_weighted (weights : List Nat) (hindices : ∀ i ∈ indices, i.Primary) :
    ∀ e ∈ List.zipWith weighted weights indices, e.Primary := by
  induction indices generalizing weights with
  | nil => simp
  | cons i rest ih =>
    obtain ⟨hi, hrest⟩ := List.forall_mem_cons.mp hindices
    cases weights with
    | nil => simp
    | cons weight more => exact List.forall_mem_cons.mpr ⟨weighted_primary weight hi, ih more hrest⟩

/-- The indices that a nest over at least one dimension hands on. -/
structure Counters (dims : List Nat) (indices : List Expr) : Prop where
  ne_nil : dims ≠ []
  length : indices.length = dims.length
  primary : ∀ i ∈ indices, i.Primary

theorem flatIndex_standalone {dims : List Nat} (h : Counters dims indices) :
    (flatIndex dims indices).Standalone := by
  have hterms := forall_mem_zipWith_weighted (strides dims) h.primary
  have hne : List.zipWith weighted (strides dims) indices ≠ [] := by
    apply List.ne_nil_of_length_pos
    rw [List.length_zipWith, length_strides, h.length, min_self]
    exact List.length_pos_iff.mpr h.ne_nil
  have hgrouped : (flatIndex dims indices).Grouped :=
    ⟨hne, (allGrouped_iff _).mpr fun e he => (hterms e he).1,
      fun e he => le_trans (by decide) (hterms e he).2⟩
  exact ⟨hgrouped, (by decide : 3 ≤ 6)⟩

theorem slotOffset_standalone {dims : List Nat} (h : Counters dims indices) :
    (slotOffset dims indices).Standalone := by
  have hindex : (Expr.paren (flatIndex dims indices)).Primary :=
    ⟨(flatIndex_standalone h).1, le_rfl⟩
  exact hindex.operation .times (.var .size)

theorem sequenceOffset_standalone {i : Expr} (hi : i.Primary) : (sequenceOffset i).Standalone := by
  have hproduct := hi.operation .times (.var .size)
  refine ⟨⟨by simp, ⟨trivial, hproduct.1, trivial⟩, ?_⟩, (by decide : 3 ≤ 6)⟩
  simp [Expr.precedence, BinaryOp.operator, Operator.level, Operator.left, Operator.right]

/-- The array whose rows are allocated is a place, of elements that are no arrays. -/
def RowsGrouped (rows : Option RowAllocation) : Prop :=
  ∀ r ∈ rows, r.array.Primary ∧ r.elementType.Flat

theorem rowsGrouped_none : RowsGrouped none := nofun

theorem rows?_grouped (layout : Layout) {array : Expr} {elementType : Ty} (dims : List Nat)
    (harray : array.Primary) (htype : elementType.Flat) :
    RowsGrouped (layout.rows? array elementType dims) := by
  intro r hr
  unfold Layout.rows? at hr
  split at hr
  · cases hr
    exact ⟨harray, htype⟩
  · cases hr

theorem row_grouped {rows : Option RowAllocation} (hrows : RowsGrouped rows)
    (hindices : ∀ i ∈ indices, i.Primary) :
    BodyGrouped (RowAllocation.atLevel rows indices) := by
  cases rows with
  | none => trivial
  | some r =>
    obtain ⟨harray, htype⟩ := hrows r rfl
    simp only [RowAllocation.atLevel]
    split
    · exact ⟨⟨(jaggedAccess_primary harray hindices).standalone, htype, (by decide : 3 ≤ 9)⟩,
        trivial⟩
    · trivial

/-- The expressions of a nest are those of its bodies and its row allocations. -/
theorem loopNest_grouped (depth : Nat) {dims : List Nat} (hdims : dims ≠ [])
    {rows : Option RowAllocation} (hrows : RowsGrouped rows) {body : List Expr → List Stmt}
    (hbody : ∀ indices, Counters dims indices → BodyGrouped (body indices)) :
    BodyGrouped (loopNest depth dims rows body) := by
  have hnest : ∀ (rest : List Nat) depth outer, outer.length + rest.length = dims.length →
      (∀ i ∈ outer, i.Primary) →
        BodyGrouped (loopNestFrom rows body depth outer rest) := by
    intro rest
    induction rest with
    | nil => exact fun depth outer hlength houter => hbody outer ⟨hdims, hlength, houter⟩
    | cons d rest ih =>
      intro depth outer hlength houter
      have hcounters : ∀ i ∈ outer ++ [counter depth], i.Primary :=
        List.forall_mem_append.mpr ⟨houter, List.forall_mem_singleton.mpr (.var _)⟩
      refine ⟨⟨(Expr.Primary.nat d).standalone, (bodyEvery_append _ _).mpr ⟨?_, ?_⟩⟩, trivial⟩
      · exact row_grouped hrows hcounters
      · refine ih (depth + 1) _ ?_ hcounters
        rw [List.length_append, List.length_singleton, ← hlength, List.length_cons]
        omega
  exact hnest dims depth [] (by simp) nofun

theorem allRows_grouped (depth : Nat) {rows : Option RowAllocation} (hrows : RowsGrouped rows) :
    BodyGrouped (rows.elim [] (allRows depth)) := by
  cases rows with
  | none => trivial
  | some r =>
    rw [Option.elim_some]
    unfold allRows
    split
    · trivial
    · rename_i hne
      exact loopNest_grouped depth hne hrows fun _ _ => trivial

/-! ### Scalars, slots and allocations -/

theorem Element.flat_valueType (e : Element) : e.valueType.Flat := by
  cases e <;> trivial

theorem Target.flat_transferType (t : Target) (e : Element) : (t.elementTransferType e).Flat := by
  cases e <;> trivial

theorem primitiveToTransfer_standalone (platform : Platform) (kind : PrimitiveKind)
    (hvalue : value.Primary) : (platform.primitiveToTransfer kind value).Standalone := by
  have hcast : ∀ b : Builtin, (Expr.cast (.builtin b) value).Standalone :=
    fun b => hvalue.cast trivial
  cases kind with
  | longdouble => exact hcast .double
  | wchar => cases platform <;> first | exact hvalue.standalone | exact hcast .uint
  | _ => exact hvalue.standalone

theorem primitiveFromTransfer_standalone (platform : Platform) (kind : PrimitiveKind)
    (hnative : native.Primary) : (platform.primitiveFromTransfer kind native).Standalone := by
  have hcast : ∀ b : Builtin, (Expr.cast (.builtin b) native).Standalone := fun b =>
    hnative.cast trivial
  cases kind with
  | longdouble => exact hcast .decimal
  | wchar => cases platform <;> first | exact hnative.standalone | exact hcast .char
  | _ => exact hnative.standalone

theorem stringToNative_primary (platform : Platform) (kind : StringKind) (hvalue : value.Primary) :
    (platform.stringToNative kind value).Primary :=
  .call rfl ⟨(hvalue.operation .coalesce (.constant .emptyString)).1, trivial⟩

theorem stringFromNative_standalone (platform : Platform) (kind : StringKind)
    (hnative : native.Primary) : (platform.stringFromNative kind native).Standalone := by
  obtain ⟨hcondition, hprecedence⟩ := hnative.binary .unequal (.constant .zeroHandle)
  have htext : (Expr.call (.ptrToString (platform.encoding kind)) [native]).Primary :=
    .call rfl ⟨hnative.1, trivial⟩
  exact ⟨⟨hcondition, htext.1, trivial, hprecedence, htext.standalone.2,
    (Expr.Primary.constant .emptyString).standalone.2⟩, (by decide : 3 ≤ 3)⟩

theorem bounded_primary (maxBound : Nat) (h : value.Primary) :
    (bounded value maxBound).Primary := by
  unfold bounded
  split
  · exact h
  · exact .call rfl ⟨h.1, trivial, trivial⟩

theorem arrayAllocation_primary (layout : Layout) {element : Ty} (dims : List Nat)
    (h : element.Flat) :
    (layout.arrayAllocation element dims).Primary := by
  cases layout <;> exact ⟨h, le_rfl⟩

theorem listAllocation_primary {element : Ty} (maxBound : Nat) (h : element.Flat) :
    (listAllocation element maxBound).Primary := by
  refine .newObject h ?_
  split <;> simp

theorem Element.initialValue_primary (e : Element) : e.initialValue.Primary := by
  cases e with
  | primitive kind => cases kind <;> exact ⟨trivial, le_rfl⟩
  | string kind => exact .constant _
  | enum en => exact ⟨trivial, le_rfl⟩
  | struct s => exact .newObject trivial trivial

/-- The size of a slot is an operand, and what it casts to are no arrays. -/
def Slot.Grouped : Slot → Prop
  | .integer size _ (.casts stored value) => size.Primary ∧ stored.Flat ∧ value.Flat
  | .integer size _ _ => size.Primary
  | .transferStruct type => type.Flat

theorem Target.slot_grouped (t : Target) (e : Element) : (t.slot e).Grouped := by
  cases e with
  | primitive kind =>
    cases kind with
    | wchar =>
      simp only [slot, Platform.primitiveSlot]
      split <;> exact ⟨.nat _, trivial, trivial⟩
    | char => exact ⟨.nat _, trivial, trivial⟩
    | _ => exact Expr.Primary.nat _
  | string kind => exact .constant _
  | enum en => exact ⟨.constant _, trivial, trivial⟩
  | struct s => trivial

namespace Slot

variable {slot : Slot} {offset : Expr}

theorem size_primary (h : slot.Grouped) : slot.size.Primary := by
  cases slot with
  | integer size word coding =>
    cases coding with
    | casts stored value => exact h.1
    | _ => exact h
  | transferStruct type =>
    exact ⟨⟨fun _ htype => by cases htype; exact h, trivial⟩, le_rfl⟩

theorem write_primary (h : slot.Grouped) (hpointer : base.Grouped) (hoffset : offset.Grouped)
    (hvalue : value.Primary) : (slot.write base offset value).Primary := by
  cases slot with
  | integer size word coding =>
    have hargument : AllGrouped [value] := ⟨hvalue.1, trivial⟩
    have hnarrowed : AllGrouped [Expr.cast (.builtin .double) value] :=
      ⟨⟨trivial, hvalue.1, le_trans (by decide) hvalue.2⟩, trivial⟩
    have hencode : (coding.encode value).Grouped := by
      cases coding with
      | plain => exact hvalue.1
      | reinterpret stored _ => exact ⟨trivial, hvalue.1, le_trans (by decide) hvalue.2⟩
      | singleBits | doubleBits => exact (Expr.Primary.call rfl hargument).1
      | narrowedBits => exact (Expr.Primary.call rfl hnarrowed).1
      | truth =>
        exact ⟨trivial, ⟨hvalue.1, trivial, trivial, le_trans (by decide) hvalue.2,
          (Expr.Primary.nat 1).standalone.2, (Expr.Primary.nat 0).standalone.2⟩, (by decide : 8 ≤ 9)⟩
      | casts stored _ => exact (hvalue.cast h.2.1).1
    exact .call rfl ⟨hpointer, hoffset, hencode, trivial⟩
  | transferStruct type =>
    have hadd : (Expr.call .intPtrAdd [base, offset]).Primary :=
      .call rfl ⟨hpointer, hoffset, trivial⟩
    exact .call rfl ⟨hvalue.1, hadd.1, trivial, trivial⟩

theorem read_standalone (h : slot.Grouped) (hpointer : base.Grouped) (hoffset : offset.Grouped) :
    (slot.read base offset).Standalone := by
  cases slot with
  | integer size word coding =>
    have hread : (Expr.call (.read word) [base, offset]).Primary :=
      .call rfl ⟨hpointer, hoffset, trivial⟩
    have hargument : AllGrouped [Expr.call (.read word) [base, offset]] := ⟨hread.1, trivial⟩
    cases coding with
    | plain => exact hread.standalone
    | reinterpret _ type => exact ⟨⟨trivial, hread.1, (by decide : 8 ≤ 9)⟩, (by decide : 3 ≤ 9)⟩
    | singleBits | doubleBits => exact (Expr.Primary.call rfl hargument).standalone
    | narrowedBits =>
      have hbits := Expr.Primary.call (f := .int64BitsToDouble) rfl hargument
      exact hbits.cast trivial
    | truth => exact hread.operation .unequal (.nat 0)
    | casts _ type => exact hread.cast h.2.2
  | transferStruct type =>
    have hadd : (Expr.call .intPtrAdd [base, offset]).Primary :=
      .call rfl ⟨hpointer, hoffset, trivial⟩
    exact ⟨⟨fun _ htype => by cases htype; exact h, hadd.1, trivial⟩, (by decide : 3 ≤ 9)⟩

end Slot

/-! ### Conversions of one field -/

namespace Target

variable (t : Target) (e : Element)

theorem convertStruct_grouped (hvalue : value.Primary) (hplace : place.Primary) :
    (convertStruct value place).Grouped :=
  Expr.Primary.standalone (hvalue.invoke .toNative ⟨hplace.1, trivial, trivial⟩)

/-- The entry of a handle in the release list. -/
theorem enlist_standalone (hplace : place.Primary) :
    (Expr.invoke (.var .toRelease) .add [place]).Standalone :=
  Expr.Primary.standalone ((Expr.Primary.var .toRelease).invoke .add ⟨hplace.1, trivial⟩)

theorem elementToNative_grouped (hvalue : value.Primary) (hplace : place.Primary) :
    BodyGrouped (t.elementToNative e value place) := by
  cases e with
  | primitive kind =>
    exact ⟨⟨hplace.standalone, primitiveToTransfer_standalone t.platform kind hvalue⟩, trivial⟩
  | string kind =>
    exact ⟨⟨hplace.standalone, (stringToNative_primary t.platform kind hvalue).standalone⟩,
      enlist_standalone hplace, trivial⟩
  | enum en => exact ⟨⟨hplace.standalone, hvalue.cast trivial⟩, trivial⟩
  | struct s => exact ⟨convertStruct_grouped hvalue hplace, trivial⟩

theorem storeInSlot_grouped {buffer offset : Expr} (hbuffer : buffer.Grouped)
    (hoffset : offset.Grouped) (hvalue : value.Primary) :
    BodyGrouped (t.storeInSlot e buffer offset value) := by
  have hwrite : ∀ x : Expr, x.Primary → ((t.slot e).write buffer offset x).Standalone := fun x hx =>
    (Slot.write_primary (t.slot_grouped e) hbuffer hoffset hx).standalone
  cases e with
  | primitive kind => exact ⟨hwrite value hvalue, trivial⟩
  | enum en => exact ⟨hwrite value hvalue, trivial⟩
  | string kind =>
    exact ⟨(stringToNative_primary t.platform kind hvalue).standalone,
      enlist_standalone (.var .text),
      hwrite _ (.var .text), trivial⟩
  | struct s =>
    have hfresh : (Expr.newObject (t.transferTypeOf s.name) []).Primary := .newObject trivial trivial
    exact ⟨hfresh.standalone, convertStruct_grouped hvalue (.var .element), hwrite _ (.var .element),
      trivial⟩

theorem readStruct_grouped (s : StructType) (hplace : place.Primary) (hnative : native.Grouped) :
    BodyGrouped (readStruct s place native) := by
  have hfresh : (Expr.newObject (valueTypeOf s.name) []).Primary := .newObject trivial trivial
  have hcall : (Expr.invoke place .fromNative [native]).Primary :=
    hplace.invoke .fromNative ⟨hnative, trivial⟩
  exact ⟨⟨hplace.standalone, hfresh.standalone⟩, hcall.standalone, trivial⟩

theorem elementFromNative_grouped (hplace : place.Primary) (hnative : native.Primary) :
    BodyGrouped (t.elementFromNative e place native) := by
  cases e with
  | primitive kind =>
    exact ⟨⟨hplace.standalone, primitiveFromTransfer_standalone t.platform kind hnative⟩, trivial⟩
  | string kind =>
    exact ⟨⟨hplace.standalone, stringFromNative_standalone t.platform kind hnative⟩, trivial⟩
  | enum en => exact ⟨⟨hplace.standalone, hnative.cast trivial⟩, trivial⟩
  | struct s => exact readStruct_grouped s hplace hnative.1

theorem loadFromSlot_grouped {buffer offset : Expr} (hbuffer : buffer.Grouped)
    (hoffset : offset.Grouped) {use : Expr → Stmt}
    (huse : ∀ x : Expr, x.Standalone → (use x).Grouped) :
    BodyGrouped (t.loadFromSlot e buffer offset use) := by
  have hread := Slot.read_standalone (t.slot_grouped e) hbuffer hoffset
  cases e with
  | primitive kind => exact ⟨huse _ hread, trivial⟩
  | enum en => exact ⟨huse _ hread, trivial⟩
  | string kind =>
    exact ⟨hread, huse _ (stringFromNative_standalone t.platform kind (.var .text)), trivial⟩
  | struct s =>
    have hfresh : (Expr.newObject (valueTypeOf s.name) []).Primary := .newObject trivial trivial
    have hcall : (Expr.invoke (.var .element) .fromNative
        [(t.slot (.struct s)).read buffer offset]).Primary :=
      (Expr.Primary.var .element).invoke .fromNative ⟨hread.1, trivial⟩
    exact ⟨hfresh.standalone, hcall.standalone, huse _ (Expr.Primary.var .element).standalone,
      trivial⟩

end Target

theorem FieldView.value_primary (f : FieldView) : f.value.Primary :=
  ⟨trivial, le_rfl⟩

theorem FieldView.native_primary (f : FieldView) : f.native.Primary :=
  ⟨trivial, le_rfl⟩

/-- The element of the array in the transfer struct. -/
theorem nativeItem_primary (f : FieldView) {dims : List Nat} (h : Counters dims indices) :
    (Expr.index f.native [flatIndex dims indices]).Primary :=
  f.native_primary.index ⟨(flatIndex_standalone h).1, trivial⟩

namespace Target

variable (t : Target) (depth : Nat) (f : FieldView) (e : Element)

theorem inlineArrayToNative_grouped {dims : List Nat} (hdims : dims ≠ []) (length : Nat) :
    BodyGrouped (t.inlineArrayToNative depth f e dims length) := by
  have hfresh : (Stmt.assign f.native (.newArray (t.elementTransferType e) [length] 0)).Grouped :=
    ⟨f.native_primary.standalone, t.flat_transferType e, (by decide : 3 ≤ 9)⟩
  have hcopy : (Expr.call .arrayCopy [f.value, f.native, .nat length]).Primary :=
    .call rfl ⟨trivial, trivial, trivial, trivial⟩
  unfold inlineArrayToNative
  split
  · exact ⟨hfresh, hcopy.standalone, trivial⟩
  · refine ⟨hfresh, loopNest_grouped depth hdims rowsGrouped_none fun indices h => ?_⟩
    exact t.elementToNative_grouped e (elementAt_primary _ f.value_primary h.primary)
      (nativeItem_primary f h)

theorem allocate_grouped {bytes : Expr} (hplace : place.Primary) (hbytes : bytes.Grouped) :
    BodyGrouped (allocate place bytes) := by
  have hcall : (Expr.call .allocHGlobal [bytes]).Primary := .call rfl ⟨hbytes, trivial⟩
  exact ⟨⟨hplace.standalone, hcall.standalone⟩, enlist_standalone hplace, trivial⟩

theorem outOfLineArrayToNative_grouped {dims : List Nat} (hdims : dims ≠ []) (length : Nat) :
    BodyGrouped (t.outOfLineArrayToNative depth f e dims length) := by
  have hbytes := (Expr.Primary.var .size).operation .times (.nat length)
  have hslots : BodyGrouped (loopNest depth dims none fun indices =>
      t.storeInSlot e f.native (slotOffset dims indices) (t.layout.elementAt f.value indices)) :=
    loopNest_grouped depth hdims rowsGrouped_none fun indices h =>
      t.storeInSlot_grouped e f.native_primary.1 (slotOffset_standalone h).1
        (elementAt_primary _ f.value_primary h.primary)
  have hbuffer := allocate_grouped f.native_primary hbytes.1
  exact ⟨⟨(Slot.size_primary (t.slot_grouped e)).standalone,
    (bodyEvery_append _ _).mpr ⟨hbuffer, hslots⟩⟩, trivial⟩

theorem sequenceToNative_grouped (maxBound : Nat) :
    BodyGrouped (t.sequenceToNative depth f e maxBound) := by
  have hlist : (Expr.listCount f.value).Primary := ⟨f.value_primary, le_rfl⟩
  obtain ⟨hnull, hprecedence⟩ := f.value_primary.binary .equal (.constant .null)
  have hbound := bounded_primary maxBound hlist
  have hcount : (Expr.conditional (.binary .equal f.value (.constant .null)) (.nat 0)
      (bounded (.listCount f.value) maxBound)).Standalone :=
    ⟨⟨hnull, trivial, hbound.1, hprecedence, (by decide : 3 ≤ 9), hbound.standalone.2⟩,
      (by decide : 3 ≤ 3)⟩
  have hwrite : (Expr.call (.write .int32) [f.native, .nat 0, .var .count]).Primary :=
    .call rfl ⟨trivial, trivial, trivial, trivial⟩
  have hitem : (Expr.index f.value [counter depth]).Primary :=
    f.value_primary.index ⟨trivial, trivial⟩
  have hslots := t.storeInSlot_grouped e f.native_primary.1
    (sequenceOffset_standalone (.var (.counter depth))).1 hitem
  have hbuffer := allocate_grouped f.native_primary (sequenceOffset_standalone (.var .count)).1
  exact ⟨⟨hcount, (Slot.size_primary (t.slot_grouped e)).standalone, (bodyEvery_append _ _).mpr
    ⟨(bodyEvery_append _ _).mpr ⟨hbuffer, hwrite.standalone, trivial⟩,
      ⟨(Expr.Primary.var .count).standalone, hslots⟩, trivial⟩⟩, trivial⟩

/-- The expressions of a field in `ToNative`. -/
theorem toNative_grouped (h : f.shape.Transferable t.layout) :
    BodyGrouped (t.toNative depth f).stmts := by
  obtain ⟨e, hshape⟩ | ⟨e, dims, hshape, valid⟩ | ⟨e, maxBound, hshape, bridges⟩ := h.cases
  · rw [t.toNative_element depth f e hshape]
    exact t.elementToNative_grouped e f.value_primary f.native_primary
  · rw [t.toNative_array depth f e dims hshape valid]
    cases e.transfer dims with
    | inline length => exact t.inlineArrayToNative_grouped depth f e valid.nonempty length
    | outOfLine length => exact t.outOfLineArrayToNative_grouped depth f e valid.nonempty length
  · rw [t.toNative_sequence depth f e maxBound hshape bridges]
    exact t.sequenceToNative_grouped depth f e maxBound

theorem inlineArrayFromNative_grouped {dims : List Nat} (hdims : dims ≠ []) (length : Nat) :
    BodyGrouped (t.inlineArrayFromNative depth f e dims length) := by
  have hcopy : (Expr.call .arrayCopy [f.native, f.value, .nat length]).Primary :=
    .call rfl ⟨trivial, trivial, trivial, trivial⟩
  unfold inlineArrayFromNative
  split
  · exact ⟨hcopy.standalone, trivial⟩
  · refine loopNest_grouped depth hdims (rows?_grouped _ _ f.value_primary e.flat_valueType)
      fun indices h => ?_
    exact t.elementFromNative_grouped e (elementAt_primary _ f.value_primary h.primary)
      (nativeItem_primary f h)

theorem isHandle_standalone (hplace : place.Primary) : (isHandle place).Standalone :=
  hplace.operation .unequal (.constant .zeroHandle)

theorem outOfLineArrayFromNative_grouped {dims : List Nat} (hdims : dims ≠ []) :
    BodyGrouped (t.outOfLineArrayFromNative depth f e dims) := by
  have hrows := rows?_grouped t.layout dims f.value_primary e.flat_valueType
  have hslots : BodyGrouped (loopNest depth dims none fun indices =>
      t.loadFromSlot e f.native (slotOffset dims indices) fun staged =>
        .assign (t.layout.elementAt f.value indices) staged) :=
    loopNest_grouped depth hdims rowsGrouped_none fun indices h =>
      t.loadFromSlot_grouped e f.native_primary.1 (slotOffset_standalone h).1 fun x hx =>
        ⟨(elementAt_primary _ f.value_primary h.primary).standalone, hx⟩
  refine (bodyEvery_append _ _).mpr ⟨allRows_grouped depth hrows, ?_⟩
  exact ⟨⟨isHandle_standalone f.native_primary, (Slot.size_primary (t.slot_grouped e)).standalone,
    hslots⟩, trivial⟩

theorem sequenceFromNative_grouped (maxBound : Nat) {fresh : Expr} (hfresh : fresh.Primary) :
    BodyGrouped (t.sequenceFromNative depth f e maxBound fresh) := by
  have hread : (Expr.call (.read .int32) [f.native, .nat 0]).Primary :=
    .call rfl ⟨trivial, trivial, trivial⟩
  have hadd : ∀ x : Expr, x.Standalone →
      (Stmt.run (.invoke f.value .add [x])).Grouped := fun x hx =>
    Expr.Primary.standalone (f.value_primary.invoke .add ⟨hx.1, trivial⟩)
  have hslots := t.loadFromSlot_grouped e f.native_primary.1
    (sequenceOffset_standalone (.var (.counter depth))).1 hadd
  exact ⟨⟨f.value_primary.standalone, hfresh.standalone⟩,
    ⟨isHandle_standalone f.native_primary, (bounded_primary maxBound hread).standalone,
      (Slot.size_primary (t.slot_grouped e)).standalone,
      ⟨(Expr.Primary.var .count).standalone, hslots⟩, trivial⟩, trivial⟩

/-- The expressions of a field in `FromNative`. -/
theorem fromNative_grouped (h : f.shape.Transferable t.layout) :
    BodyGrouped (t.fromNative depth f).stmts := by
  obtain ⟨e, hshape⟩ | ⟨e, dims, hshape, valid⟩ | ⟨e, maxBound, hshape, bridges⟩ := h.cases
  · rw [t.fromNative_element depth f e hshape]
    exact t.elementFromNative_grouped e f.value_primary f.native_primary
  · have hfresh := arrayAllocation_primary t.layout dims e.flat_valueType
    rw [t.fromNative_array depth f e dims hshape valid]
    refine ⟨⟨f.value_primary.standalone, hfresh.standalone⟩, ?_⟩
    cases e.transfer dims with
    | inline length => exact t.inlineArrayFromNative_grouped depth f e valid.nonempty length
    | outOfLine length => exact t.outOfLineArrayFromNative_grouped depth f e valid.nonempty
  · rw [t.fromNative_sequence depth f e maxBound hshape bridges]
    exact t.sequenceFromNative_grouped depth f e maxBound
      (listAllocation_primary maxBound e.flat_valueType)

/-- The expressions of a field in the constructor. -/
theorem initial_grouped (h : f.shape.Transferable t.layout) :
    BodyGrouped (t.initial depth f).stmts := by
  obtain ⟨e, hshape⟩ | ⟨e, dims, hshape, valid⟩ | ⟨e, maxBound, hshape, _⟩ := h.cases
  · rw [t.initial_element depth f e hshape]
    exact ⟨⟨f.value_primary.standalone, e.initialValue_primary.standalone⟩, trivial⟩
  · have hfresh := arrayAllocation_primary t.layout dims e.flat_valueType
    have hrows := rows?_grouped t.layout dims f.value_primary e.flat_valueType
    rw [t.initial_array depth f e dims hshape valid]
    refine ⟨⟨f.value_primary.standalone, hfresh.standalone⟩, ?_⟩
    split
    · unfold fillArray
      cases hfill : e.fill? with
      | none => exact allRows_grouped depth hrows
      | some fill =>
        have hinitial : fill = e.initialValue := by
          cases e <;> cases hfill <;> rfl
        refine loopNest_grouped depth valid.nonempty hrows fun indices h => ?_
        rw [hinitial]
        exact ⟨⟨(elementAt_primary _ f.value_primary h.primary).standalone,
          e.initialValue_primary.standalone⟩, trivial⟩
    · trivial
  · rw [t.initial_sequence depth f e maxBound hshape]
    exact ⟨⟨f.value_primary.standalone,
      (listAllocation_primary maxBound e.flat_valueType).standalone⟩, trivial⟩

theorem releaseStruct_grouped (s : StructType) (hnative : native.Grouped) :
    (releaseStruct s native).Grouped :=
  ⟨⟨fun _ htype => by cases htype; trivial, hnative, trivial, trivial⟩, (by decide : 3 ≤ 9)⟩

/-- The expressions of a field in `ReleaseNative`. -/
theorem releaseNative_grouped (h : f.shape.Transferable t.layout) :
    BodyGrouped (InteropGen.releaseNative depth f).stmts := by
  have hreset : (resetHandle f.native).Grouped :=
    ⟨f.native_primary.standalone, (Expr.Primary.constant .zeroHandle).standalone⟩
  have hpresent := f.native_primary.operation .unequal (.constant .null)
  obtain ⟨e, hshape⟩ | ⟨e, dims, hshape, valid⟩ | ⟨e, maxBound, hshape, _⟩ := h.cases
  · rw [release_element depth f e hshape]
    cases e with
    | string kind => exact ⟨hreset, trivial⟩
    | struct s => exact ⟨releaseStruct_grouped s f.native_primary.1, trivial⟩
    | _ => trivial
  · rw [release_array depth f e dims hshape valid]
    cases e.transfer dims with
    | outOfLine length => exact ⟨hreset, trivial⟩
    | inline length =>
      cases e with
      | string kind =>
        have hclear : (Expr.call .arrayClear [f.native, .nat 0, .arrayLength f.native]).Primary :=
          .call rfl ⟨trivial, trivial, f.native_primary, trivial⟩
        exact ⟨⟨hpresent, hclear.standalone, trivial⟩, trivial⟩
      | struct s =>
        have hnest : BodyGrouped (loopNest depth [length] none fun indices =>
            [releaseStruct s (.index f.native indices)]) :=
          loopNest_grouped depth (by simp) rowsGrouped_none fun indices h =>
            ⟨releaseStruct_grouped s ⟨trivial, le_rfl,
              (allGrouped_iff _).mpr fun i hi => (h.primary i hi).1⟩, trivial⟩
        exact ⟨⟨hpresent, hnest⟩, trivial⟩
      | _ => trivial
  · rw [release_sequence depth f e maxBound hshape]
    exact ⟨hreset, trivial⟩

theorem writeCall_grouped (tag : WireTag) (form : WireForm) {arguments : List Expr}
    (h : AllGrouped arguments) : (writeCall tag form arguments).Grouped :=
  ((Expr.Primary.var .writer).invoke (.write tag form) h).standalone

theorem readCall_grouped (tag : WireTag) (form : WireForm) (hplace : place.Primary)
    {arguments : List Expr} (h : AllGrouped arguments) :
    (readCall place tag form arguments).Grouped :=
  ⟨hplace.standalone, ((Expr.Primary.var .reader).invoke (.read tag form) h).standalone⟩

theorem boundArgument_grouped (maxBound : Nat) : AllGrouped (boundArgument maxBound) := by
  unfold boundArgument
  split <;> simp

/-- The expressions of a field in `Encode`. -/
theorem encode_grouped (h : f.shape.Encodable) :
    BodyGrouped (t.encode depth f).stmts := by
  obtain ⟨e, tag, hshape, htag⟩ | ⟨en, hshape⟩ | ⟨e, tag, dims, hshape, htag, valid⟩ |
    ⟨e, tag, maxBound, hshape, htag⟩ := h.cases
  · rw [t.encode_scalar depth f e tag hshape htag]
    exact ⟨writeCall_grouped _ _ ⟨trivial, trivial⟩, trivial⟩
  · have hnumber : (Expr.cast (.builtin .int) f.value).Standalone := f.value_primary.cast trivial
    rw [t.encode_enum depth f en hshape]
    exact ⟨writeCall_grouped _ _ ⟨hnumber.1, trivial⟩, trivial⟩
  · rw [t.encode_array depth f e tag dims hshape htag valid]
    unfold encodeArray
    split
    · refine loopNest_grouped depth valid.nonempty rowsGrouped_none fun indices h => ?_
      exact ⟨writeCall_grouped _ _ ⟨(elementAt_primary _ f.value_primary h.primary).1, trivial⟩,
        trivial⟩
    · exact ⟨writeCall_grouped _ _ ⟨trivial, trivial, trivial⟩, trivial⟩
  · rw [t.encode_sequence depth f e tag maxBound hshape htag]
    exact ⟨writeCall_grouped _ _ ⟨trivial, boundArgument_grouped maxBound⟩, trivial⟩

/-- The expressions of a field in `Decode`. -/
theorem decode_grouped (h : f.shape.Encodable) :
    BodyGrouped (t.decode depth f).stmts := by
  obtain ⟨e, tag, hshape, htag⟩ | ⟨en, hshape⟩ | ⟨e, tag, dims, hshape, htag, valid⟩ |
    ⟨e, tag, maxBound, hshape, htag⟩ := h.cases
  · rw [t.decode_scalar depth f e tag hshape htag]
    exact ⟨readCall_grouped _ _ f.value_primary trivial, trivial⟩
  · have hread : (Expr.invoke (.var .reader) (.read .int32 .scalar) []).Primary :=
      (Expr.Primary.var .reader).invoke _ trivial
    rw [t.decode_enum depth f en hshape]
    exact ⟨⟨f.value_primary.standalone, hread.cast trivial⟩, trivial⟩
  · rw [t.decode_array depth f e tag dims hshape htag valid]
    unfold decodeArray
    split
    · have hfresh := arrayAllocation_primary t.layout dims e.flat_valueType
      refine ⟨⟨f.value_primary.standalone, hfresh.standalone⟩, ?_⟩
      refine loopNest_grouped depth valid.nonempty
        (rows?_grouped _ _ f.value_primary e.flat_valueType) fun indices h => ?_
      exact ⟨readCall_grouped _ _ (elementAt_primary _ f.value_primary h.primary) trivial, trivial⟩
    · exact ⟨readCall_grouped _ _ f.value_primary ⟨trivial, trivial⟩, trivial⟩
  · rw [t.decode_sequence depth f e tag maxBound hshape htag]
    exact ⟨readCall_grouped _ _ f.value_primary (boundArgument_grouped maxBound), trivial⟩

/-- The expressions of a field in any direction that accepts it. -/
theorem draftOf_grouped (direction : Direction) (h : direction.Accepts t.layout f.shape) :
    BodyGrouped (t.draftOf direction depth f).stmts := by
  cases direction with
  | toTransfer => exact t.toNative_grouped depth f h
  | fromTransfer => exact t.fromNative_grouped depth f h
  | release => exact t.releaseNative_grouped depth f h
  | encode => exact t.encode_grouped depth f h
  | decode => exact t.decode_grouped depth f h
  | initial => exact t.initial_grouped depth f h

end Target

theorem Direction.opening_grouped (direction : Direction) :
    BodyGrouped direction.opening := by
  cases direction with
  | release =>
    have hfree : (Expr.call .freeHGlobal [.var .handle]).Primary := .call rfl ⟨trivial, trivial⟩
    have hclear : (Expr.invoke (.var .toRelease) .clear []).Primary :=
      (Expr.Primary.var .toRelease).invoke .clear trivial
    exact ⟨⟨(Expr.Primary.var .toRelease).standalone, hfree.standalone, trivial⟩,
      hclear.standalone, trivial⟩
  | _ => trivial

/-- Every expression in the methods of an accepted struct is grouped. -/
theorem Target.structCode_grouped {t : Target} {wireCodec : Bool} {s : StructType}
    {code : DeclarationCode} (h : t.structCode wireCodec s = .ok code) :
    ∃ c, code.units.values = some ⟨s.name.enclosing, .valueClass c⟩ ∧
      ∀ direction body, c.body? direction = some body → BodyGrouped body := by
  obtain ⟨c, hunit, hmethods⟩ := t.structCode_methods h
  refine ⟨c, hunit, fun direction body hbody => ?_⟩
  obtain ⟨rfl, haccepts⟩ := hmethods direction body hbody
  refine (bodyEvery_append _ _).mpr ⟨direction.opening_grouped, ?_⟩
  exact bodyEvery_flatMap _ _ fun f hf => t.draftOf_grouped 0 f direction (haccepts f hf)

/-- Without keywords among the names, none is spelled in a path. -/
theorem Target.Readable.unreserved {t : Target} {d : Declaration} (h : t.Readable d)
    (hkeywords : ∀ n ∈ d.name :: d.references,
      (∀ segment ∈ n.segments, segment ∉ keywords) ∧ n.short ++ t.transferSuffix ∉ keywords)
    (s : Spelling) (hs : d.Spelled t s) : s.Unreserved := by
  refine ⟨h.legible s hs, fun token htoken hkeyword => ?_⟩
  obtain ⟨-, n, hn, hsegment | hsuffix⟩ := t.token_of_spelled d (not_mem_of_isWordChar h.suffix)
    (fun n hn => (h.names n hn).1) s hs token htoken hkeyword
  · exact (hkeywords n hn).1 token hsegment hkeyword
  · exact (hkeywords n hn).2 (hsuffix ▸ hkeyword)

/-- What is read from the text of an expression in a method of an accepted struct has the value that
the method is run with, and an assignment is read as one, with all of what is assigned. -/
theorem Target.Readable.values_read {t : Target} {s : StructType} (h : t.Readable (.struct s))
    (hkeywords : ∀ n ∈ s.name :: (Declaration.struct s).references,
      (∀ segment ∈ n.segments, segment ∉ keywords) ∧ n.short ++ t.transferSuffix ∉ keywords)
    {wireCodec : Bool} {code : DeclarationCode} (hcode : t.structCode wireCodec s = .ok code)
    {stem : String} (hstem : isIdentifier stem = true) :
    ∃ c, code.units.values = some ⟨s.name.enclosing, .valueClass c⟩ ∧
      ∀ direction body, c.body? direction = some body →
        BodyEvery (fun place value => ∃ x y, place.ReadBack stem x ∧ value.ReadBack stem y ∧
            readTree? (place.text stem ++ " = " ++ value.text stem) = some (.binary .assign x y))
          (fun e => ∃ x, e.ReadBack stem x) body := by
  obtain ⟨c, hunit, hbodies⟩ := structCode_grouped hcode
  have hspells :=
    (t.declarationCode_spells wireCodec (.struct s) code hcode (h.unreserved hkeywords)).1 _ hunit
  refine ⟨c, hunit, fun direction body hbody => ?_⟩
  refine BodyEvery.spelled (fun place value hgrouped hplace hvalue => ?_)
    (fun e hgrouped hspelled => ?_) (hbodies direction body hbody)
    ((c.spells_bodies.mp hspells.2).2.2.2 direction body hbody)
  · exact ⟨_, _, place.readBack_tree hstem hgrouped.1.1 hplace,
      value.readBack_tree hstem hgrouped.2.1 hvalue,
      assignment_reads hstem hgrouped.1 hgrouped.2 ⟨hplace, hvalue⟩⟩
  · exact ⟨_, e.readBack_tree hstem hgrouped.1 hspelled⟩

end

end InteropGen

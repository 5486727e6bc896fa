import InteropGen.Proofs.Reading.Positions
import InteropGen.CSharp.Unit
import InteropGen.Generator.Declaration

/-!
# Numerals and what they are written in

Loop bounds, lengths, strides, capacities and the other counts of generated code are decimal
numerals. `Counts` says that every numeral of an expression, a statement or a declaration is of a
given kind.

* `ValidDims.stride_le` — the strides of accepted dimensions are numbers of type `int`;
* `loopNest_counts` and its like — the parts that methods are built of.
-/

set_option autoImplicit false

namespace InteropGen

namespace CSharp

variable (P : Nat → Prop)

mutual

/-- Every numeral of the expression is of the kind. What a text given as it is holds is not known. -/
@[simp] def Expr.Counts : Expr → Prop
  | .nat n => P n
  | .newArray _ dims _ => ∀ d ∈ dims, P d
  | .spelled _ => False
  | .var _ | .field _ _ | .constant _ | .defaultOf _ => True
  | .paren e | .listCount e | .arrayLength e | .byRef e => e.Counts
  | .cast _ e | .uncheckedCast _ e => e.Counts
  | .index base indices => base.Counts ∧ AllCount indices
  | .binary _ left right => left.Counts ∧ right.Counts
  | .sum terms => AllCount terms
  | .conditional condition whenTrue whenFalse =>
    condition.Counts ∧ whenTrue.Counts ∧ whenFalse.Counts
  | .call _ arguments => AllCount arguments
  | .invoke receiver _ arguments => receiver.Counts ∧ AllCount arguments
  | .newObject _ arguments => AllCount arguments

@[simp] def AllCount : List Expr → Prop
  | [] => True
  | e :: es => e.Counts ∧ AllCount es

end

mutual

/-- Every numeral of the statement is of the kind. -/
@[simp] def Stmt.Counts : Stmt → Prop
  | .assign place value => place.Counts P ∧ value.Counts P
  | .declare _ _ value => value.Counts P
  | .run call => call.Counts P
  | .block body => BodyCounts body
  | .countUp _ bound body => bound.Counts P ∧ BodyCounts body
  | .when condition body => condition.Counts P ∧ BodyCounts body
  | .forEach _ _ list body => list.Counts P ∧ BodyCounts body

@[simp] def BodyCounts : List Stmt → Prop
  | [] => True
  | s :: rest => s.Counts ∧ BodyCounts rest

end

/-- Every numeral in the methods of the class is of the kind. -/
structure ValueClass.Counts (c : ValueClass) : Prop where
  constructor : BodyCounts P c.constructor
  toNative : BodyCounts P c.toNative
  fromNative : BodyCounts P c.fromNative
  releaseNative : BodyCounts P c.releaseNative
  codec : ∀ encode decode, c.codec = some (encode, decode) →
    BodyCounts P encode ∧ BodyCounts P decode

/-- Every numeral in the attributes of the struct is of the kind. -/
def TransferStruct.Counts (s : TransferStruct) : Prop :=
  ∀ f ∈ s.fields, ∀ length elementType,
    f.marshalAs = some (.byValArray length elementType) → P length

/-- Every numeral of the declaration is of the kind. The literal of a constant is a text. -/
def TypeDecl.Counts : TypeDecl → Prop
  | .valueClass c => c.Counts P
  | .transferStruct s => s.Counts P
  | .valueEnum _ _ | .transferEnum _ _ => True
  | .constant _ _ _ => False

variable {P}

theorem allCount_append (a b : List Expr) : AllCount P (a ++ b) ↔ AllCount P a ∧ AllCount P b := by
  induction a with
  | nil => simp
  | cons e es ih => simp [ih, and_assoc]

theorem bodyCounts_append (a b : List Stmt) :
    BodyCounts P (a ++ b) ↔ BodyCounts P a ∧ BodyCounts P b := by
  induction a with
  | nil => simp
  | cons s rest ih => simp [ih, and_assoc]

theorem bodyCounts_flatMap {α : Type} (items : List α) (body : α → List Stmt) :
    BodyCounts P (items.flatMap body) ↔ ∀ item ∈ items, BodyCounts P (body item) := by
  induction items with
  | nil => simp
  | cons item rest ih => rw [List.flatMap_cons, bodyCounts_append, ih, List.forall_mem_cons]

end CSharp

open CSharp

/-- Every numeral in the code of a declaration is of the kind. -/
def DeclarationCode.Counts (P : Nat → Prop) (code : DeclarationCode) : Prop :=
  (∀ u ∈ code.units.values, u.decl.Counts P) ∧ ∀ u ∈ code.units.transfers, u.decl.Counts P

/-- The bound that a shape declares, if it is a sequence. -/
def Shape.bounds : Shape → List Nat
  | .sequence _ maxBound => [maxBound]
  | _ => []

/-- The bounds of the sequences among the fields of a struct; zero stands for none. -/
def StructOf.bounds (s : StructType) : List Nat :=
  s.fields.flatMap (·.type.shape.bounds)

/-- Strides are products of dimensions. -/
theorem ValidDims.stride_le {dims : List Nat} (valid : ValidDims dims) (stride : Nat)
    (hstride : stride ∈ strides dims) : stride ≤ 2147483647 := by
  obtain ⟨-, hpositive, hcount⟩ := valid
  induction dims with
  | nil => cases hstride
  | cons d rest ih =>
    obtain ⟨hrest, hrow, hstrides⟩ := strides_row hpositive hcount
    rw [hstrides] at hstride
    rcases List.mem_cons.mp hstride with rfl | hmem
    · omega
    · exact ih hmem hrest hrow

section
variable {P : Nat → Prop}

/-! ### Places and loops -/

@[simp] theorem FieldView.value_counts (f : FieldView) : f.value.Counts P := trivial

@[simp] theorem FieldView.native_counts (f : FieldView) : f.native.Counts P := trivial

theorem jaggedAccess_counts (base : Expr) (indices : List Expr) (hbase : base.Counts P)
    (hindices : AllCount P indices) : (jaggedAccess base indices).Counts P := by
  induction indices generalizing base with
  | nil => exact hbase
  | cons i rest ih => exact ih _ ⟨hbase, hindices.1, trivial⟩ hindices.2

theorem elementAt_counts (layout : Layout) (base : Expr) (indices : List Expr)
    (hbase : base.Counts P) (hindices : AllCount P indices) :
    (layout.elementAt base indices).Counts P := by
  cases layout with
  | rectangular => exact ⟨hbase, hindices⟩
  | jagged => exact jaggedAccess_counts base indices hbase hindices

/-- What stands around the dimensions of an array: they and their strides are of the kind. -/
structure DimsCount (P : Nat → Prop) (dims : List Nat) : Prop where
  zero : P 0
  dim : ∀ d ∈ dims, P d
  stride : ∀ stride ∈ strides dims, P stride
  count : P dims.prod

theorem flatIndex_counts {dims : List Nat} (hdims : DimsCount P dims) (indices : List Expr)
    (h : AllCount P indices) : (flatIndex dims indices).Counts P := by
  have hstrides := hdims.stride
  unfold flatIndex Expr.Counts
  generalize strides dims = weights at hstrides
  induction indices generalizing weights with
  | nil => cases weights <;> trivial
  | cons i rest ih =>
    cases weights with
    | nil => trivial
    | cons weight more =>
      obtain ⟨hweight, hmore⟩ := List.forall_mem_cons.mp hstrides
      have hterm : (weighted weight i).Counts P := by
        unfold weighted
        split
        · exact h.1
        · exact ⟨h.1, hweight⟩
      exact ⟨hterm, ih h.2 more hmore⟩

theorem slotOffset_counts {dims : List Nat} (hdims : DimsCount P dims) (indices : List Expr)
    (h : AllCount P indices) : (slotOffset dims indices).Counts P :=
  ⟨flatIndex_counts hdims indices h, trivial⟩

/-- The rows that are allocated in a nest have lengths of the kind. -/
def RowsCount (P : Nat → Prop) (rows : Option RowAllocation) : Prop :=
  ∀ r ∈ rows, r.array.Counts P ∧ ∀ d ∈ r.dims, P d

theorem rowsCount_none : RowsCount P none := nofun

theorem rows?_count (layout : Layout) (array : Expr) (elementType : Ty) (dims : List Nat)
    (harray : array.Counts P) (hdims : ∀ d ∈ dims, P d) :
    RowsCount P (layout.rows? array elementType dims) := by
  intro r hr
  unfold Layout.rows? at hr
  split at hr
  · cases hr
    exact ⟨harray, hdims⟩
  · cases hr

theorem row_counts (rows : Option RowAllocation) (hrows : RowsCount P rows) (indices : List Expr)
    (hindices : AllCount P indices) : BodyCounts P (RowAllocation.atLevel rows indices) := by
  cases rows with
  | none => trivial
  | some r =>
    obtain ⟨harray, hdims⟩ := hrows r rfl
    simp only [RowAllocation.atLevel]
    split
    next hlevel =>
      have hlength : P (r.dims.getD indices.length 0) := by
        rw [List.getD_eq_getElem?_getD, List.getElem?_eq_getElem hlevel]
        exact hdims _ (List.getElem_mem hlevel)
      exact ⟨⟨jaggedAccess_counts r.array indices harray hindices, by simpa using hlength⟩, trivial⟩
    · trivial

/-- A nest counts up to its dimensions. -/
theorem loopNest_counts (depth : Nat) (dims : List Nat) (hdims : ∀ d ∈ dims, P d)
    (rows : Option RowAllocation) (hrows : RowsCount P rows) (body : List Expr → List Stmt)
    (hbody : ∀ indices, AllCount P indices → BodyCounts P (body indices)) :
    BodyCounts P (loopNest depth dims rows body) := by
  have hnest : ∀ depth outer, AllCount P outer →
      BodyCounts P (loopNestFrom rows body depth outer dims) := by
    induction dims with
    | nil => exact fun depth outer houter => hbody outer houter
    | cons d rest ih =>
      intro depth outer houter
      obtain ⟨hd, hrest⟩ := List.forall_mem_cons.mp hdims
      have hcounters : AllCount P (outer ++ [counter depth]) :=
        (allCount_append _ _).mpr ⟨houter, trivial, trivial⟩
      refine ⟨⟨hd, (bodyCounts_append _ _).mpr ⟨?_, ?_⟩⟩, trivial⟩
      · exact row_counts rows hrows _ hcounters
      · exact ih hrest (depth + 1) _ hcounters
  exact hnest depth [] trivial

theorem allRows_count (depth : Nat) (rows : Option RowAllocation) (hrows : RowsCount P rows) :
    BodyCounts P (rows.elim [] (allRows depth)) := by
  cases rows with
  | none => trivial
  | some r =>
    rw [Option.elim_some]
    unfold allRows
    split
    · trivial
    next outer houter =>
      refine loopNest_counts depth _ ?_ _ hrows _ fun _ _ => trivial
      exact fun d hd => (hrows r rfl).2 d (List.dropLast_subset _ hd)

/-! ### Scalars, slots and allocations -/

theorem primitiveToTransfer_counts (platform : Platform) (kind : PrimitiveKind) (x : Expr)
    (hx : x.Counts P) : (platform.primitiveToTransfer kind x).Counts P := by
  cases kind with
  | wchar => cases platform <;> exact hx
  | _ => exact hx

theorem primitiveFromTransfer_counts (platform : Platform) (kind : PrimitiveKind) (x : Expr)
    (hx : x.Counts P) : (platform.primitiveFromTransfer kind x).Counts P := by
  cases kind with
  | wchar => cases platform <;> exact hx
  | _ => exact hx

theorem stringToNative_counts (platform : Platform) (kind : StringKind) (x : Expr)
    (hx : x.Counts P) : (platform.stringToNative kind x).Counts P := by
  simp [Platform.stringToNative, hx]

theorem stringFromNative_counts (platform : Platform) (kind : StringKind) (x : Expr)
    (hx : x.Counts P) : (platform.stringFromNative kind x).Counts P := by
  simp [Platform.stringFromNative, hx]

theorem bounded_counts (count : Expr) (maxBound : Nat) (hcount : count.Counts P)
    (hbound : P maxBound) : (bounded count maxBound).Counts P := by
  unfold bounded
  split
  · exact hcount
  · exact ⟨hcount, hbound, trivial⟩

theorem boundArgument_count (maxBound : Nat) (hbound : P maxBound) :
    AllCount P (boundArgument maxBound) := by
  unfold boundArgument
  split
  · trivial
  · exact ⟨hbound, trivial⟩

/-- The capacity of a list is its bound. -/
theorem listAllocation_counts_iff (element : Ty) (maxBound : Nat) (hzero : P 0) :
    (listAllocation element maxBound).Counts P ↔ P maxBound := by
  unfold listAllocation
  split
  next h => simp [h, hzero]
  · simp

theorem arrayAllocation_counts (layout : Layout) (element : Ty) {dims : List Nat}
    (hdims : DimsCount P dims) : (layout.arrayAllocation element dims).Counts P := by
  cases layout with
  | rectangular => exact hdims.dim
  | jagged =>
    have hhead : P (dims.headD 0) := by
      cases dims with
      | nil => exact hdims.zero
      | cons d rest => exact hdims.dim d (List.mem_cons_self ..)
    simpa [Layout.arrayAllocation] using hhead

end

end InteropGen

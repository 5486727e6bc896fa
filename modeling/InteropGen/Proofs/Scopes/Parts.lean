import InteropGen.Proofs.Bodies
import InteropGen.Proofs.Scopes.Locals

/-!
# Scopes of the parts of methods

What a conversion writes for an element, a slot or a loop nest is resolved in the scope that it
stands in. Inside a nest that scope has the counters of the nest and nothing else besides what is
around it, so a variable that is new outside is new inside.

* `loopNest_enclosed` — loop nests, by induction on the dimensions;
* `Target.storeInSlot_scoped`, `Target.loadFromSlot_scoped` — the variables of one element.
-/

set_option autoImplicit false

namespace InteropGen

open CSharp

section
variable {stem : String} {scope scope' : List Local}

/-! ### Places and loops -/

@[simp] theorem FieldView.value_resolved (f : FieldView) : f.value.Resolved stem scope := by
  simp [FieldView.value]

@[simp] theorem FieldView.native_resolved (f : FieldView) :
    f.native.Resolved stem scope ↔ .wrapper ∈ scope := by
  simp [FieldView.native]

@[simp] theorem counter_resolved (depth : Nat) :
    (counter depth).Resolved stem scope ↔ .counter depth ∈ scope := by
  simp [counter]

theorem jaggedAccess_resolved (base : Expr) (indices : List Expr)
    (hbase : base.Resolved stem scope) (hindices : AllResolved stem scope indices) :
    (jaggedAccess base indices).Resolved stem scope := by
  induction indices generalizing base with
  | nil => exact hbase
  | cons i rest ih => exact ih _ ⟨hbase, hindices.1, trivial⟩ hindices.2

theorem elementAt_resolved (layout : Layout) (f : FieldView) (indices : List Expr)
    (hindices : AllResolved stem scope indices) :
    (layout.elementAt f.value indices).Resolved stem scope := by
  cases layout with
  | rectangular => exact ⟨f.value_resolved, hindices⟩
  | jagged => exact jaggedAccess_resolved f.value indices f.value_resolved hindices

theorem flatIndex_resolved (dims : List Nat) (indices : List Expr)
    (h : AllResolved stem scope indices) : (flatIndex dims indices).Resolved stem scope := by
  unfold flatIndex Expr.Resolved
  generalize strides dims = weights
  induction indices generalizing weights with
  | nil => cases weights <;> trivial
  | cons i rest ih =>
    cases weights with
    | nil => trivial
    | cons weight more =>
      have hterm : (weighted weight i).Resolved stem scope := by
        unfold weighted
        split
        · exact h.1
        · exact ⟨h.1, trivial⟩
      exact ⟨hterm, ih h.2 more⟩

theorem slotOffset_resolved (dims : List Nat) (indices : List Expr)
    (h : AllResolved stem scope indices) (hsize : .size ∈ scope) :
    (slotOffset dims indices).Resolved stem scope :=
  ⟨flatIndex_resolved dims indices h, by simpa using hsize⟩

theorem arrayAllocation_resolved (layout : Layout) (element : Ty) (dims : List Nat) :
    (layout.arrayAllocation element dims).Resolved stem scope := by
  cases layout <;> trivial

/-- The scope inside loops: besides what is around them, only counters. -/
structure Inside (scope scope' : List Local) : Prop where
  kept : scope ⊆ scope'
  added : ∀ x ∈ scope', x ∈ scope ∨ ∃ depth, x = .counter depth

theorem Inside.refl (scope : List Local) : Inside scope scope :=
  ⟨fun _ h => h, fun _ h => .inl h⟩

theorem Inside.enter {depth : Nat} (h : Inside scope scope') :
    Inside scope (.counter depth :: scope') where
  kept := List.subset_cons_of_subset _ h.kept
  added x hx := by
    rcases List.mem_cons.mp hx with rfl | hx
    · exact .inr ⟨depth, rfl⟩
    · exact h.added x hx

/-- What is new outside the loops, and no counter, is new inside them. -/
theorem Inside.notMem (h : Inside scope scope') {x : Local} (hx : x ∉ scope)
    (hcounter : ∀ depth, x ≠ .counter depth) : x ∉ scope' := fun hmem =>
  (h.added x hmem).elim hx fun ⟨depth, heq⟩ => hcounter depth heq

/-- The rows that a nest allocates are those of a property. -/
def OfProperty (rows : Option RowAllocation) : Prop :=
  ∀ r ∈ rows, ∃ f : FieldView, r.array = f.value

theorem ofProperty_none : OfProperty none := nofun

theorem ofProperty_rows? (layout : Layout) (f : FieldView) (elementType : Ty) (dims : List Nat) :
    OfProperty (layout.rows? f.value elementType dims) := by
  intro r hr
  unfold Layout.rows? at hr
  split at hr
  · cases hr
    exact ⟨f, rfl⟩
  · cases hr

theorem atLevel_enclosed {rows : Option RowAllocation} (hrows : OfProperty rows)
    (indices : List Expr) (hindices : AllResolved stem scope indices) :
    Enclosed stem scope (RowAllocation.atLevel rows indices) := by
  cases rows with
  | none => exact .nil
  | some r =>
    obtain ⟨f, harray⟩ := hrows r rfl
    simp only [RowAllocation.atLevel]
    split
    · have hplace := jaggedAccess_resolved r.array indices (harray ▸ f.value_resolved) hindices
      simpa [Enclosed, RowAllocation.row] using hplace
    · exact .nil

/-- A nest declares its counters, numbered from `depth`, and no counter is in scope yet. By
induction on the dimensions: each loop takes the next number. -/
theorem loopNest_enclosed (depth : Nat) {dims : List Nat} (hdims : dims ≠ [])
    (hfresh : ∀ k, .counter k ∉ scope) {rows : Option RowAllocation} (hrows : OfProperty rows)
    (body : List Expr → List Stmt)
    (hbody : ∀ indices scope', Inside scope scope' → AllResolved stem scope' indices →
      BodyScoped stem scope' (body indices)) :
    Enclosed stem scope (loopNest depth dims rows body) := by
  have hnest : ∀ depth outer scope', Inside scope scope' → (∀ k ≥ depth, .counter k ∉ scope') →
      AllResolved stem scope' outer →
      BodyScoped stem scope' (loopNestFrom rows body depth outer dims) := by
    clear hdims
    induction dims with
    | nil => exact fun depth outer scope' hinside _ houter => hbody outer scope' hinside houter
    | cons d rest ih =>
      intro depth outer scope' hinside hfresh houter
      have hcounters : AllResolved stem (.counter depth :: scope') (outer ++ [counter depth]) :=
        (allResolved_append _ _).mpr
          ⟨AllResolved.mono (List.subset_cons_self ..) outer houter, by simp⟩
      have hdeeper : ∀ k ≥ depth + 1, Local.counter k ∉ Local.counter depth :: scope' := by
        intro k hk
        have hne : k ≠ depth := by omega
        simpa [hne] using hfresh k (by omega)
      have hinner := ih (depth + 1) _ _ hinside.enter hdeeper hcounters
      exact ⟨⟨by simpa using hfresh depth (Nat.le_refl _), trivial,
        (atLevel_enclosed hrows _ hcounters).bodyScoped_append hinner⟩, trivial⟩
  have hscoped := hnest depth [] scope (.refl scope) (fun k _ => hfresh k) trivial
  cases dims with
  | nil => exact absurd rfl hdims
  | cons d rest =>
    intro s hs
    obtain rfl := List.mem_singleton.mp hs
    exact ⟨hscoped.1, rfl⟩

theorem allRows_enclosed (depth : Nat) (hfresh : ∀ k, .counter k ∉ scope)
    {rows : Option RowAllocation} (hrows : OfProperty rows) :
    Enclosed stem scope (rows.elim [] (allRows depth)) := by
  cases rows with
  | none => exact .nil
  | some r =>
    rw [Option.elim_some]
    unfold allRows
    split
    · exact .nil
    next outer houter =>
      exact loopNest_enclosed depth houter hfresh hrows _ fun _ _ _ _ => trivial

/-! ### Scalars and slots -/

theorem primitiveToTransfer_resolved (platform : Platform) (kind : PrimitiveKind) (x : Expr)
    (hx : x.Resolved stem scope) : (platform.primitiveToTransfer kind x).Resolved stem scope := by
  cases kind with
  | wchar => cases platform <;> exact hx
  | _ => exact hx

theorem primitiveFromTransfer_resolved (platform : Platform) (kind : PrimitiveKind) (x : Expr)
    (hx : x.Resolved stem scope) : (platform.primitiveFromTransfer kind x).Resolved stem scope := by
  cases kind with
  | wchar => cases platform <;> exact hx
  | _ => exact hx

theorem stringToNative_resolved (platform : Platform) (kind : StringKind) (x : Expr)
    (hx : x.Resolved stem scope) : (platform.stringToNative kind x).Resolved stem scope := by
  simp [Platform.stringToNative, hx]

theorem stringFromNative_resolved (platform : Platform) (kind : StringKind) (x : Expr)
    (hx : x.Resolved stem scope) : (platform.stringFromNative kind x).Resolved stem scope := by
  simp [Platform.stringFromNative, hx]

theorem bounded_resolved (count : Expr) (maxBound : Nat) (hcount : count.Resolved stem scope) :
    (bounded count maxBound).Resolved stem scope := by
  unfold bounded
  split
  · exact hcount
  · exact ⟨hcount, trivial, trivial⟩

theorem boundArgument_resolved (maxBound : Nat) :
    AllResolved stem scope (boundArgument maxBound) := by
  unfold boundArgument
  split <;> simp

theorem listAllocation_resolved (element : Ty) (maxBound : Nat) :
    (listAllocation element maxBound).Resolved stem scope := by
  unfold listAllocation
  split <;> simp

theorem Element.initialValue_resolved (e : Element) : e.initialValue.Resolved stem scope := by
  cases e with
  | primitive kind => cases kind <;> trivial
  | _ => trivial

theorem slotWrite_resolved (slot : Slot) (pointer offset value : Expr)
    (hpointer : pointer.Resolved stem scope) (hoffset : offset.Resolved stem scope)
    (hvalue : value.Resolved stem scope) :
    (slot.write pointer offset value).Resolved stem scope := by
  cases slot with
  | integer size word coding =>
    have hcoded : (coding.encode value).Resolved stem scope := by
      cases coding <;> simp [SlotCoding.encode, hvalue]
    simp [Slot.write, hpointer, hoffset, hcoded]
  | transferStruct type => simp [Slot.write, hpointer, hoffset, hvalue]

theorem slotRead_resolved (slot : Slot) (pointer offset : Expr)
    (hpointer : pointer.Resolved stem scope) (hoffset : offset.Resolved stem scope) :
    (slot.read pointer offset).Resolved stem scope := by
  cases slot with
  | integer size word coding =>
    cases coding <;> simp [Slot.read, SlotCoding.decode, hpointer, hoffset]
  | transferStruct type => simp [Slot.read, hpointer, hoffset]

namespace Target

variable (t : Target) (e : Element)

theorem slotSize_resolved : (t.slot e).size.Resolved stem scope := by
  cases e with
  | primitive kind =>
    cases kind with
    | wchar =>
      simp only [slot, Platform.primitiveSlot]
      split <;> trivial
    | _ => trivial
  | _ => trivial

theorem elementToNative_enclosed (value place : Expr) (hvalue : value.Resolved stem scope)
    (hplace : place.Resolved stem scope) (hrelease : .toRelease ∈ scope) :
    Enclosed stem scope (t.elementToNative e value place) := by
  cases e with
  | primitive kind =>
    have hcast := primitiveToTransfer_resolved t.platform kind value hvalue
    simp [Enclosed, elementToNative, hplace, hcast]
  | string kind =>
    have htext := stringToNative_resolved t.platform kind value hvalue
    simp [Enclosed, elementToNative, storeString, hplace, htext, hrelease]
  | enum en => simp [Enclosed, elementToNative, enumToTransfer, hplace, hvalue]
  | struct s => simp [Enclosed, elementToNative, convertStruct, hplace, hvalue, hrelease]

theorem elementFromNative_enclosed (place native : Expr) (hplace : place.Resolved stem scope)
    (hnative : native.Resolved stem scope) :
    Enclosed stem scope (t.elementFromNative e place native) := by
  cases e with
  | primitive kind =>
    have hcast := primitiveFromTransfer_resolved t.platform kind native hnative
    simp [Enclosed, elementFromNative, hplace, hcast]
  | string kind =>
    have htext := stringFromNative_resolved t.platform kind native hnative
    simp [Enclosed, elementFromNative, hplace, htext]
  | enum en => simp [Enclosed, elementFromNative, enumFromTransfer, hplace, hnative]
  | struct s => simp [Enclosed, elementFromNative, readStruct, hplace, hnative]

/-- The variables of an element that is stored in a slot are new in its block. -/
theorem storeInSlot_scoped (buffer offset value : Expr) (hbuffer : buffer.Resolved stem scope)
    (hoffset : offset.Resolved stem scope) (hvalue : value.Resolved stem scope)
    (hrelease : .toRelease ∈ scope) (htext : .text ∉ scope) (helement : .element ∉ scope) :
    BodyScoped stem scope (t.storeInSlot e buffer offset value) := by
  -- behind the declaration of `x` the pointer and the offset are what they were before
  have hwrite : ∀ x : Local,
      ((t.slot e).write buffer offset (.var x)).Resolved stem (x :: scope) := fun x =>
    slotWrite_resolved (t.slot e) buffer offset (.var x)
      (Expr.Resolved.mono (List.subset_cons_self ..) buffer hbuffer)
      (Expr.Resolved.mono (List.subset_cons_self ..) offset hoffset) (by simp)
  have hdirect := slotWrite_resolved (t.slot e) buffer offset value hbuffer hoffset hvalue
  cases e with
  | primitive kind => exact ⟨hdirect, trivial⟩
  | enum en => exact ⟨hdirect, trivial⟩
  | string kind =>
    have hcopy := stringToNative_resolved t.platform kind value hvalue
    simp [storeInSlot, stageToNative, hcopy, hrelease, htext, hwrite .text]
  | struct s =>
    have hvalue' : value.Resolved stem (.element :: scope) :=
      Expr.Resolved.mono (List.subset_cons_self ..) value hvalue
    simp [storeInSlot, stageToNative, convertStruct, hvalue', hrelease, helement, hwrite .element]

/-- The variables of an element that is loaded from a slot are new in its block. -/
theorem loadFromSlot_scoped (buffer offset : Expr) (use : Expr → Stmt)
    (hbuffer : buffer.Resolved stem scope) (hoffset : offset.Resolved stem scope)
    (htext : .text ∉ scope) (helement : .element ∉ scope)
    (huse : ∀ x scope', scope ⊆ scope' → x.Resolved stem scope' → (use x).Scoped stem scope') :
    BodyScoped stem scope (t.loadFromSlot e buffer offset use) := by
  have hread : ∀ scope', scope ⊆ scope' →
      ((t.slot e).read buffer offset).Resolved stem scope' := fun scope' hsubset =>
    slotRead_resolved (t.slot e) buffer offset (Expr.Resolved.mono hsubset buffer hbuffer)
      (Expr.Resolved.mono hsubset offset hoffset)
  have hbefore := hread scope (List.Subset.refl _)
  cases e with
  | primitive kind => exact ⟨huse _ scope (List.Subset.refl _) hbefore, trivial⟩
  | enum en => exact ⟨huse _ scope (List.Subset.refl _) hbefore, trivial⟩
  | string kind =>
    have hlast := huse (t.platform.stringFromNative kind (.var .text)) (.text :: scope)
      (List.subset_cons_self ..) (stringFromNative_resolved _ _ _ (by simp))
    simp [loadFromSlot, stageFromNative, hbefore, htext, hlast]
  | struct s =>
    have hafter := hread (.element :: scope) (List.subset_cons_self ..)
    have hlast := huse (.var .element) (.element :: scope) (List.subset_cons_self ..) (by simp)
    simp [loadFromSlot, stageFromNative, hafter, helement, hlast]

end Target

end

end InteropGen

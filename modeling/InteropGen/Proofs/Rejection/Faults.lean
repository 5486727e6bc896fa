import InteropGen.Proofs.Acceptance
import InteropGen.Proofs.Bodies

/-!
# Which rule a field breaks

Five rules decide about the fields of a struct. They are listed in the order in which they are
checked, and each says by itself which error a field that breaks it gives.

* `failure?` — what a computation fails with; after a step that failed nothing else counts;
* `Rule.fault?` — the error of a field under one rule, read off its shape;
* `Target.failure?_toNative` and its like — what a stage of struct generation fails with, the fields
  having kept the rules of the stages before it.
-/

set_option autoImplicit false

namespace InteropGen

open CSharp

section
variable {α β : Type}

/-- The error that a computation ended with, if it failed. -/
def failure? : Except GenError α → Option GenError
  | .ok _ => none
  | .error e => some e

@[simp] theorem failure?_ok (a : α) : failure? (.ok a : Except GenError α) = none := rfl

@[simp] theorem failure?_error (e : GenError) :
    failure? (.error e : Except GenError α) = some e := rfl

theorem failure?_eq_none_iff (result : Except GenError α) :
    failure? result = none ↔ ∃ a, result = .ok a := by
  cases result <;> simp

theorem failure?_eq_some_iff (result : Except GenError α) (e : GenError) :
    failure? result = some e ↔ result = .error e := by
  cases result <;> simp

theorem failure?_map (f : α → β) (result : Except GenError α) :
    failure? (result.map f) = failure? result := by
  cases result <;> rfl

/-- What follows a step counts only if the step succeeds. -/
theorem failure?_bind {step : Except GenError α} {next : α → Except GenError β}
    {rest : Option GenError} (h : ∀ a, step = .ok a → failure? (next a) = rest) :
    failure? (step >>= next) = (failure? step).or rest := by
  cases step with
  | error e => rfl
  | ok a => exact h a rfl

theorem failure?_bind_of_ok {step : Except GenError α} {next : α → Except GenError β} {a : α}
    (h : step = .ok a) : failure? (step >>= next) = failure? (next a) := by
  subst h
  rfl

/-- What follows does not fail. -/
theorem failure?_bind_pure {step : Except GenError α} {next : α → Except GenError β}
    (h : ∀ a, step = .ok a → failure? (next a) = none) :
    failure? (step >>= next) = failure? step := by
  rw [failure?_bind h, Option.or_none]

theorem findSome?_cons_or (f : α → Option β) (a : α) (rest : List α) :
    (a :: rest).findSome? f = (f a).or (rest.findSome? f) := by
  rw [List.findSome?_cons]
  cases f a <;> rfl

theorem findSome?_congr {f g : α → Option β} {items : List α} (h : ∀ a ∈ items, f a = g a) :
    items.findSome? f = items.findSome? g := by
  induction items with
  | nil => rfl
  | cons a rest ih =>
    obtain ⟨ha, hrest⟩ := List.forall_mem_cons.mp h
    rw [findSome?_cons_or, findSome?_cons_or, ha, ih hrest]

/-- The first item that fails decides. -/
theorem failure?_mapM (f : α → Except GenError β) (items : List α) :
    failure? (items.mapM f) = items.findSome? fun item => failure? (f item) := by
  induction items with
  | nil => rfl
  | cons item rest ih =>
    rw [List.mapM_cons, findSome?_cons_or, ← ih]
    exact failure?_bind fun _ _ => failure?_bind_pure fun _ _ => rfl

theorem failure?_foldlM (step : β → α → Except GenError β) (fault? : α → Option GenError)
    (h : ∀ acc item, failure? (step acc item) = fault? item) (items : List α) (start : β) :
    failure? (items.foldlM step start) = items.findSome? fault? := by
  induction items generalizing start with
  | nil => rfl
  | cons item rest ih =>
    rw [List.foldlM_cons, findSome?_cons_or, ← h start item]
    exact failure?_bind fun next _ => ih next

end

namespace Draft

variable {α β : Type}

theorem failure?_bind {d : Draft α} {next : α → Draft β} {rest : Option GenError}
    (h : ∀ a, d.outcome = .ok a → failure? (next a).outcome = rest) :
    failure? (d >>= next).outcome = (failure? d.outcome).or rest := by
  show failure? (d.bind next).outcome = _
  unfold Draft.bind
  cases houtcome : d.outcome with
  | error e => rfl
  | ok a => exact h a houtcome

theorem failure?_each (items : List α) (draft : α → Draft Unit) :
    failure? (each items draft).outcome =
      items.findSome? fun item => failure? (draft item).outcome := by
  induction items with
  | nil => rfl
  | cons item rest ih =>
    rw [findSome?_cons_or, ← ih]
    exact failure?_bind fun _ _ => rfl

end Draft

theorem failure?_methodBody (fields : List FieldView) (draft : Nat → FieldView → Draft Unit) :
    failure? (methodBody fields draft) =
      fields.findSome? fun f => failure? (draft 0 f).outcome := by
  rw [← Draft.failure?_each fields (draft 0)]
  exact failure?_map _ _

theorem failure?_checkDims (site : Site) (dims : List Nat) :
    failure? (checkDims site dims) =
      if ValidDims dims then none else some (.invalidDimensions site dims) := by
  by_cases valid : ValidDims dims
  · rw [checkDims_of_valid site dims valid, if_pos valid]
    rfl
  · rw [if_neg valid]
    cases hcheck : checkDims site dims with
    | ok n => exact absurd ((checkDims_ok_iff site dims n).mp hcheck).1 valid
    | error e =>
      unfold checkDims at hcheck
      split at hcheck
      · rw [← hcheck]
        rfl
      · split at hcheck
        · split at hcheck
          · cases hcheck
          · rw [← hcheck]
            rfl
        · rw [← hcheck]
          rfl

/-- The dimensions of the outermost array that has invalid ones, along arrays and sequences. -/
def Shape.invalidDims? : Shape → Option (List Nat)
  | .array element dims => if ValidDims dims then element.invalidDims? else some dims
  | .sequence element _ => element.invalidDims?
  | _ => none

/-- What is asked of the fields of a struct, in the order in which it is checked. -/
inductive Rule where
  /-- No union is reached. -/
  | noUnion
  /-- Arrays have valid dimensions. -/
  | validDims
  /-- Rows that are allocated one by one can be filled with first values. -/
  | fillableRows
  /-- The elements of collections can be marshalled. -/
  | marshalledElements
  /-- Messages are flat. -/
  | flatMessages
  deriving DecidableEq, Repr

namespace Rule

/-- The rules, the first that is broken being the one that is reported. -/
def inOrder : List Rule :=
  [noUnion, validDims, fillableRows, marshalledElements, flatMessages]

/-- The error of a field whose rows cannot be filled: those of a jagged array of sequences. -/
def rowsFault? (layout : Layout) (f : FieldView) : Option GenError :=
  match f.shape with
  | .array (.sequence _ _) dims =>
    if layout = .jagged ∧ 1 < dims.length then
      some (.unsupportedElement f.site f.elementText .array)
    else none
  | _ => none

/-- The error of a collection of collections, or of enums that the layout cannot marshal in a
sequence. -/
def elementsFault? (layout : Layout) (f : FieldView) : Option GenError :=
  match f.shape with
  | .array (.sequence _ _) _ => some (.unsupportedElement f.site f.elementText .array)
  | .sequence (.array _ _) _ | .sequence (.sequence _ _) _ =>
    some (.unsupportedElement f.site f.elementText .sequence)
  | .sequence (.enum e) _ =>
    if layout = .rectangular then
      some (.enumSequence f.site ("enum " ++ e.name.qualified) .rectangular)
    else none
  | _ => none

/-- The error of a struct inside a message, or of a collection of structs or enums inside one. -/
def messageFault? (f : FieldView) : Option GenError :=
  match f.shape with
  | .struct _ => some (.nestedAggregate f.site f.typeText)
  | .array (.struct _) _ | .array (.enum _) _ | .sequence (.struct _) _ | .sequence (.enum _) _ =>
    some (.nestedAggregate f.site f.elementText)
  | _ => none

/-- The error of a field that breaks a rule; `codec` tells whether its struct has a wire codec. -/
def fault? (layout : Layout) (codec : Bool) (f : FieldView) : Rule → Option GenError
  | noUnion => f.shape.findUnion.map f.site.unionError
  | validDims => f.shape.invalidDims?.map (.invalidDimensions f.site)
  | fillableRows => rowsFault? layout f
  | marshalledElements => elementsFault? layout f
  | flatMessages => if codec then messageFault? f else none

end Rule

/-- The error of the first rule that a field of the struct breaks, of the first such field. -/
def StructOf.firstFault? (s : StructType) (layout : Layout) (codec : Bool) : Option GenError :=
  Rule.inOrder.findSome? fun rule => (Target.views s).findSome? fun f => rule.fault? layout codec f

/-- No array is directly inside an array. -/
def Shape.IsMerged : Shape → Prop
  | .array (.array _ _) _ => False
  | _ => True

theorem TypeNode.shape_isMerged (node : TypeNode) : node.shape.IsMerged := by
  induction node using TypeNode.shape.induct with
  | case1 name target ih => exact ih
  | case8 element dims ih =>
    show (Shape.arrayOf dims element.shape).IsMerged
    cases hshape : element.shape with
    | array inner more =>
      rw [hshape] at ih
      cases inner with
      | array _ _ => exact ih
      | _ => trivial
    | _ => trivial
  | _ => trivial

theorem Shape.validDims_of_array {element : Shape} {dims : List Nat}
    (h : (Shape.array element dims).invalidDims? = none) : ValidDims dims := by
  by_cases valid : ValidDims dims
  · exact valid
  · simp [Shape.invalidDims?, valid] at h

namespace Target

variable (t : Target)

theorem failure?_valueType (site : Site) (shape : Shape) (hunion : shape.findUnion = none) :
    failure? (t.valueType site shape) = shape.invalidDims?.map (.invalidDimensions site) := by
  induction shape with
  | array element dims ih =>
    have hrest : failure? (t.valueType site (.array element dims)) =
        (failure? (checkDims site dims)).or (element.invalidDims?.map (.invalidDimensions site)) :=
      failure?_bind fun _ _ => (failure?_bind_pure fun _ _ => rfl).trans (ih hunion)
    rw [hrest, failure?_checkDims, Shape.invalidDims?]
    split <;> rfl
  | sequence element maxBound ih =>
    exact (failure?_bind_pure fun _ _ => rfl).trans (ih hunion)
  | union u => cases hunion
  | _ => rfl

theorem failure?_defaultValue (site : Site) (shape : Shape) (hunion : shape.findUnion = none) :
    failure? (t.defaultValue site shape) = shape.invalidDims?.map (.invalidDimensions site) := by
  rw [← t.failure?_valueType site shape hunion]
  cases shape with
  | array element dims =>
    exact (failure?_bind fun _ _ => failure?_bind_pure fun _ _ => rfl).trans
      (failure?_bind fun _ _ => failure?_bind_pure fun _ _ => rfl).symm
  | sequence element maxBound =>
    exact (failure?_bind_pure fun _ _ => rfl).trans (failure?_bind_pure fun _ _ => rfl).symm
  | _ => rfl

/-- The statements that complete a fresh array are missing exactly for rows of sequences. -/
theorem failure?_fillRows (depth : Nat) (f : FieldView) (element : Shape) (dims : List Nat)
    (hshape : f.shape = .array element dims) (hunion : element.findUnion = none)
    (hmerged : f.shape.IsMerged) :
    failure? (if t.layout.needsElementInit element dims then
        (do
          let e ← Draft.lift (Element.classify f.site .array f.elementText element)
          Draft.write (t.fillArray depth f e dims) : Draft Unit)
      else pure ()).outcome = Rule.rowsFault? t.layout f := by
  unfold Rule.rowsFault?
  rw [hshape] at hmerged ⊢
  cases element with
  | union u => cases hunion
  | array _ _ => exact hmerged.elim
  | sequence inner maxBound =>
    unfold Layout.needsElementInit Layout.allocatesRows
    cases t.layout with
    | rectangular => rfl
    | jagged =>
      by_cases hmulti : 1 < dims.length
      · simp only [multiDimensional, hmulti, decide_true, Bool.true_or, if_true, and_self]
        rfl
      · simp [multiDimensional, hmulti, Shape.isNullByDefault]
  | _ =>
    generalize t.layout.needsElementInit _ dims = needed
    cases needed <;> rfl

theorem failure?_initial (depth : Nat) (f : FieldView) (hunion : f.shape.findUnion = none)
    (hmerged : f.shape.IsMerged) (hdims : f.shape.invalidDims? = none) :
    failure? (t.initial depth f).outcome = Rule.rowsFault? t.layout f := by
  have hdefault : failure? (t.defaultValue f.site f.shape) = none := by
    rw [t.failure?_defaultValue f.site f.shape hunion, hdims]
    rfl
  obtain ⟨value, hvalue⟩ := (failure?_eq_none_iff _).mp hdefault
  unfold initial
  rw [hvalue]
  cases hshape : f.shape with
  | array element dims =>
    rw [hshape] at hunion
    exact t.failure?_fillRows depth f element dims hshape hunion hmerged
  | _ =>
    rw [Rule.rowsFault?, hshape]
    rfl

theorem failure?_toNative (depth : Nat) (f : FieldView) (hunion : f.shape.findUnion = none)
    (hmerged : f.shape.IsMerged) (hdims : f.shape.invalidDims? = none) :
    failure? (t.toNative depth f).outcome = Rule.elementsFault? t.layout f := by
  have hsucceeds : f.shape.Transferable t.layout → failure? (t.toNative depth f).outcome = none :=
    fun h => (failure?_eq_none_iff _).mpr ((t.toNative_finishes_iff depth f).mpr h)
  unfold Rule.elementsFault?
  cases hshape : f.shape with
  | union u =>
    rw [hshape] at hunion
    cases hunion
  | array element dims =>
    rw [hshape] at hunion hmerged hdims hsucceeds
    have valid := Shape.validDims_of_array hdims
    cases element with
    | union u => cases hunion
    | array _ _ => exact hmerged.elim
    | sequence _ _ =>
      unfold toNative
      rw [hshape]
      rfl
    | _ => exact hsucceeds ⟨(Shape.isElement_iff _).mp trivial, valid⟩
  | sequence element maxBound =>
    rw [hshape] at hunion hsucceeds
    rw [Shape.sequence_transferable_iff] at hsucceeds
    cases element with
    | union u => cases hunion
    | array _ _ | sequence _ _ =>
      unfold toNative
      rw [hshape]
      rfl
    | enum e =>
      cases hlayout : t.layout with
      | jagged =>
        rw [hlayout] at hsucceeds
        exact hsucceeds ⟨trivial, nofun⟩
      | rectangular =>
        unfold toNative sequenceElement
        rw [hshape, hlayout]
        rfl
    | _ => exact hsucceeds ⟨trivial, fun _ => nofun⟩
  | _ =>
    rw [hshape] at hsucceeds
    exact hsucceeds trivial

/-- Fields that can be transferred are encoded unless they nest. -/
theorem failure?_encode (depth : Nat) (f : FieldView) (h : f.shape.Transferable t.layout) :
    failure? (t.encode depth f).outcome = Rule.messageFault? f := by
  have hsucceeds : f.shape.Encodable → failure? (t.encode depth f).outcome = none :=
    fun h => (failure?_eq_none_iff _).mpr ((t.encode_finishes_iff depth f).mpr h)
  unfold Rule.messageFault?
  cases hshape : f.shape with
  | union u =>
    rw [hshape] at h
    exact h.elim
  | struct s =>
    unfold encode
    rw [hshape]
    rfl
  | array element dims =>
    rw [hshape] at h hsucceeds
    obtain ⟨⟨e, rfl⟩, valid⟩ := h
    cases e with
    | primitive kind | string kind => exact hsucceeds ⟨trivial, valid⟩
    | enum _ | struct _ =>
      unfold encode
      rw [hshape]
      rfl
  | sequence element maxBound =>
    rw [hshape] at h hsucceeds
    obtain ⟨e, rfl, _⟩ := h
    cases e with
    | primitive kind | string kind => exact hsucceeds trivial
    | enum _ | struct _ =>
      unfold encode
      rw [hshape]
      rfl
  | _ =>
    rw [hshape] at hsucceeds
    exact hsucceeds trivial

end Target

end InteropGen

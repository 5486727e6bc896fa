import InteropGen.Proofs.Draft
import InteropGen.Generator.Basic

/-!
# Whom an error names

Every error of the generator names the declaration that it was raised for, whichever rule is broken
and however deep in a field's type.

* `Blames` — all that a computation may fail with names one declaration;
* `Generator.emit_blames` — generating a declaration fails with that declaration's name.
-/

set_option autoImplicit false

namespace InteropGen

open CSharp

/-- The computation fails with errors about the named declaration only. -/
def Blames {α : Type} (name : String) (result : Except GenError α) : Prop :=
  ∀ e, result = .error e → e.declaration = name

namespace Blames

variable {α β : Type} {name : String}

theorem ok (a : α) : Blames name (.ok a) := nofun

theorem error {e : GenError} (h : e.declaration = name) :
    Blames name (.error e : Except GenError α) := by
  intro e' heq
  cases heq
  exact h

theorem bind {step : Except GenError α} {next : α → Except GenError β} (h : Blames name step)
    (hnext : ∀ a, step = .ok a → Blames name (next a)) : Blames name (step >>= next) := by
  cases step with
  | error e => exact error (h e rfl)
  | ok a => exact hnext a rfl

theorem map {result : Except GenError α} (f : α → β) (h : Blames name result) :
    Blames name (result.map f) := by
  cases result with
  | error e => exact error (h e rfl)
  | ok a => exact ok _

theorem mapM {items : List α} {f : α → Except GenError β} (h : ∀ item ∈ items, Blames name (f item)) :
    Blames name (items.mapM f) := by
  induction items with
  | nil => exact ok []
  | cons item rest ih =>
    obtain ⟨hitem, hrest⟩ := List.forall_mem_cons.mp h
    rw [List.mapM_cons]
    exact hitem.bind fun _ _ => (ih hrest).bind fun _ _ => ok _

theorem foldlM {items : List α} {f : β → α → Except GenError β}
    (h : ∀ b, ∀ item ∈ items, Blames name (f b item)) (start : β) :
    Blames name (items.foldlM f start) := by
  induction items generalizing start with
  | nil => exact ok start
  | cons item rest ih =>
    rw [List.foldlM_cons]
    exact (h start item (List.mem_cons_self ..)).bind fun b _ =>
      ih (fun b item hitem => h b item (List.mem_cons_of_mem _ hitem)) b

/-- A draft goes on with another: either may be what fails. -/
theorem draft_bind {d : Draft α} {next : α → Draft β} (h : Blames name d.outcome)
    (hnext : ∀ a, d.outcome = .ok a → Blames name (next a).outcome) :
    Blames name (d >>= next).outcome := by
  show Blames name (d.bind next).outcome
  unfold Draft.bind
  cases houtcome : d.outcome with
  | error e => exact error (h e houtcome)
  | ok a => exact hnext a houtcome

end Blames

section
variable (site : Site)

theorem Element.classify_blames (container : Container) (written : String) (shape : Shape) :
    Blames site.declaration (Element.classify site container written shape) := by
  cases shape with
  | union u => exact .error rfl
  | array element dims => exact .error rfl
  | sequence element maxBound => exact .error rfl
  | _ => exact .ok _

theorem checkDims_blames (dims : List Nat) : Blames site.declaration (checkDims site dims) := by
  unfold checkDims
  split
  · exact .error rfl
  · split
    · split
      · exact .ok _
      · exact .error rfl
    · exact .error rfl

theorem arrayTransfer_blames (element : Element) (dims : List Nat) :
    Blames site.declaration (arrayTransfer site element dims) := by
  unfold arrayTransfer
  refine (checkDims_blames site dims).bind fun length _ => ?_
  cases element <;> exact .ok _

end

namespace Target

variable (t : Target) (site : Site) (f : FieldView)

theorem sequenceElement_blames (shape : Shape) :
    Blames f.site.declaration (t.sequenceElement f shape) := by
  unfold sequenceElement
  refine (Element.classify_blames f.site _ _ shape).bind fun element _ => ?_
  cases element with
  | enum e =>
    simp only
    split
    · exact .ok _
    · exact .error rfl
  | _ => exact .ok _

theorem valueType_blames (shape : Shape) : Blames site.declaration (t.valueType site shape) := by
  induction shape with
  | union u => exact .error rfl
  | array element dims ih =>
    exact (checkDims_blames site dims).bind fun _ _ => ih.bind fun _ _ => .ok _
  | sequence element maxBound ih => exact ih.bind fun _ _ => .ok _
  | _ => exact .ok _

theorem defaultValue_blames (shape : Shape) :
    Blames site.declaration (t.defaultValue site shape) := by
  cases shape with
  | union u => exact .error rfl
  | array element dims =>
    exact (checkDims_blames site dims).bind fun _ _ =>
      (t.valueType_blames site element).bind fun _ _ => .ok _
  | sequence element maxBound => exact (t.valueType_blames site element).bind fun _ _ => .ok _
  | _ => exact .ok _

theorem notePrecision_blames (kind : PrimitiveKind) :
    Blames site.declaration (notePrecision site kind).outcome := by
  unfold notePrecision
  split <;> exact .ok _

theorem noteElementPrecision_blames (element : Element) :
    Blames site.declaration (noteElementPrecision site element).outcome := by
  cases element with
  | primitive kind => exact notePrecision_blames site kind
  | _ => exact .ok _

theorem initial_blames (depth : Nat) : Blames f.site.declaration (t.initial depth f).outcome := by
  unfold initial
  refine .draft_bind (t.defaultValue_blames f.site f.shape) fun _ _ =>
    .draft_bind (.ok _) fun _ _ => ?_
  split
  · split
    · exact .draft_bind (Element.classify_blames f.site _ _ _) fun _ _ => .ok _
    · exact .ok _
  · exact .ok _

theorem toNative_blames (depth : Nat) : Blames f.site.declaration (t.toNative depth f).outcome := by
  unfold toNative
  cases f.shape with
  | primitive kind => exact .draft_bind (notePrecision_blames f.site kind) fun _ _ => .ok _
  | union u => exact .error rfl
  | array element dims =>
    refine .draft_bind (Element.classify_blames f.site _ _ element) fun e _ =>
      .draft_bind (noteElementPrecision_blames f.site e) fun _ _ =>
      .draft_bind (arrayTransfer_blames f.site e dims) fun transfer _ => ?_
    cases transfer <;> exact .ok _
  | sequence element maxBound =>
    exact .draft_bind (t.sequenceElement_blames f element) fun e _ =>
      .draft_bind (noteElementPrecision_blames f.site e) fun _ _ => .ok _
  | _ => exact .ok _

theorem fromNative_blames (depth : Nat) :
    Blames f.site.declaration (t.fromNative depth f).outcome := by
  unfold fromNative
  cases f.shape with
  | primitive kind => exact .draft_bind (notePrecision_blames f.site kind) fun _ _ => .ok _
  | union u => exact .error rfl
  | array element dims =>
    refine .draft_bind (Element.classify_blames f.site _ _ element) fun e _ =>
      .draft_bind (noteElementPrecision_blames f.site e) fun _ _ =>
      .draft_bind (.ok _) fun _ _ =>
      .draft_bind (arrayTransfer_blames f.site e dims) fun transfer _ => ?_
    cases transfer <;> exact .ok _
  | sequence element maxBound =>
    exact .draft_bind (t.defaultValue_blames f.site (.sequence element maxBound)) fun _ _ =>
      .draft_bind (t.sequenceElement_blames f element) fun e _ =>
      .draft_bind (noteElementPrecision_blames f.site e) fun _ _ => .ok _
  | _ => exact .ok _

theorem releaseNative_blames (depth : Nat) :
    Blames f.site.declaration (releaseNative depth f).outcome := by
  unfold releaseNative
  cases f.shape with
  | union u => exact .error rfl
  | array element dims =>
    exact .draft_bind (Element.classify_blames f.site _ _ element) fun e _ =>
      .draft_bind (arrayTransfer_blames f.site e dims) fun _ _ => .ok _
  | _ => exact .ok _

theorem wireElement_blames (container : Container) (shape : Shape) :
    Blames f.site.declaration (wireElement f container shape) := by
  unfold wireElement
  refine (Element.classify_blames f.site _ _ shape).bind fun element _ => ?_
  cases element with
  | primitive kind => exact .ok _
  | string kind => exact .ok _
  | enum e => exact .error rfl
  | struct s => exact .error rfl

theorem encode_blames (depth : Nat) : Blames f.site.declaration (t.encode depth f).outcome := by
  unfold encode
  cases f.shape with
  | struct s => exact .error rfl
  | union u => exact .error rfl
  | array element dims =>
    exact .draft_bind (wireElement_blames f _ element) fun _ _ =>
      .draft_bind (checkDims_blames f.site dims) fun _ _ => .ok _
  | sequence element maxBound =>
    exact .draft_bind (wireElement_blames f _ element) fun _ _ => .ok _
  | _ => exact .ok _

theorem decode_blames (depth : Nat) : Blames f.site.declaration (t.decode depth f).outcome := by
  unfold decode
  cases f.shape with
  | struct s => exact .error rfl
  | union u => exact .error rfl
  | array element dims =>
    exact .draft_bind (wireElement_blames f _ element) fun _ _ =>
      .draft_bind (checkDims_blames f.site dims) fun _ _ => .ok _
  | sequence element maxBound =>
    exact .draft_bind (wireElement_blames f _ element) fun _ _ => .ok _
  | _ => exact .ok _

theorem transferType_blames : Blames f.site.declaration (t.transferType f) := by
  unfold transferType
  cases f.shape with
  | union u => exact .error rfl
  | array element dims =>
    refine (Element.classify_blames f.site _ _ element).bind fun e _ =>
      (arrayTransfer_blames f.site e dims).bind fun transfer _ => ?_
    cases transfer <;> exact .ok _
  | _ => exact .ok _

theorem transferAttribute_blames : Blames f.site.declaration (t.transferAttribute f) := by
  unfold transferAttribute
  cases f.shape with
  | union u => exact .error rfl
  | array element dims =>
    refine (Element.classify_blames f.site _ _ element).bind fun e _ =>
      (arrayTransfer_blames f.site e dims).bind fun transfer _ => ?_
    cases transfer with
    | inline length => cases e <;> exact .ok _
    | outOfLine length => exact .ok _
  | _ => exact .ok _

variable {name : String} {fields : List FieldView}

theorem methodBody_blames {draft : Nat → FieldView → Draft Unit}
    (h : ∀ f ∈ fields, Blames name (draft 0 f).outcome) : Blames name (methodBody fields draft) := by
  have heach : Blames name (Draft.each fields (draft 0)).outcome := by
    induction fields with
    | nil => exact .ok ()
    | cons f rest ih =>
      obtain ⟨hf, hrest⟩ := List.forall_mem_cons.mp h
      exact .draft_bind hf fun _ _ => ih hrest
  exact heach.map _

theorem codecBodies_blames (h : ∀ f ∈ fields, f.site.declaration = name) :
    Blames name (t.codecBodies fields) := by
  unfold codecBodies
  exact (methodBody_blames fun f hf => h f hf ▸ t.encode_blames f 0).bind fun _ _ =>
    (methodBody_blames fun f hf => h f hf ▸ t.decode_blames f 0).bind fun _ _ => .ok _

theorem valueClass_blames (codec : Bool) (s : StructType)
    (h : ∀ f ∈ fields, f.site.declaration = name) : Blames name (t.valueClass codec s fields) := by
  unfold valueClass
  have hproperty : ∀ f ∈ fields, Blames name (t.property f) := by
    intro f hf
    exact (h f hf ▸ t.valueType_blames f.site f.shape).bind fun _ _ => .ok _
  refine (Blames.mapM hproperty).bind fun _ _ =>
    (methodBody_blames fun f hf => h f hf ▸ t.initial_blames f 0).bind fun _ _ =>
    (methodBody_blames fun f hf => h f hf ▸ t.toNative_blames f 0).bind fun _ _ =>
    (methodBody_blames fun f hf => h f hf ▸ t.fromNative_blames f 0).bind fun _ _ =>
    (methodBody_blames fun f hf => h f hf ▸ releaseNative_blames f 0).bind fun _ _ => ?_
  cases codec with
  | false => exact .ok _
  | true => exact (t.codecBodies_blames h).bind fun _ _ => .ok _

theorem transferStruct_blames (s : StructType) (h : ∀ f ∈ fields, f.site.declaration = name) :
    Blames name (t.transferStruct s fields) := by
  unfold transferStruct
  have hfield : ∀ f ∈ fields, Blames name (t.transferField f) := by
    intro f hf
    exact (h f hf ▸ t.transferAttribute_blames f).bind fun _ _ =>
      (h f hf ▸ t.transferType_blames f).bind fun _ _ => .ok _
  exact (Blames.mapM hfield).bind fun _ _ => .ok _

theorem structCode_blames (wireCodec : Bool) (s : StructType) :
    Blames s.name.qualified (t.structCode wireCodec s) := by
  have hviews : ∀ f ∈ s.fields.map (FieldView.of s.name.qualified),
      f.site.declaration = s.name.qualified := by
    simp [FieldView.of]
  unfold structCode
  split
  · exact .error rfl
  · exact (t.valueClass_blames _ s hviews).bind fun _ _ =>
      (t.transferStruct_blames s hviews).bind fun _ _ => .ok _

theorem declarationCode_blames (wireCodec : Bool) (d : Declaration) :
    Blames d.name.qualified (t.declarationCode wireCodec d) := by
  cases d with
  | struct s => exact t.structCode_blames wireCodec s
  | enum e => exact .ok _
  | «alias» a => exact .ok _
  | union u => exact .error rfl
  | const c =>
    have hliteral : Blames c.name.qualified c.literal := by
      unfold ConstDecl.literal
      split
      · exact .ok _
      · exact .error rfl
    exact hliteral.bind fun _ _ => .ok _

end Target

/-- A declaration that cannot be generated is named by the error. -/
theorem Generator.emit_blames (g : Generator) (d : Declaration) :
    Blames d.name.qualified (g.emit d) :=
  .foldlM (fun _ layout _ =>
    ((g.target layout).declarationCode_blames g.settings.wireCodec d).bind fun _ _ => .ok _) _

end InteropGen

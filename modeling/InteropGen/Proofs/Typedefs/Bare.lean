import InteropGen.Generator.Basic

/-!
# What code generation reads of a type

Code depends on the shapes of field types only, and of the structs and unions that a shape refers
to only on their names. `Shape.bare` is what is left of a shape then; the type as it is written
shows in messages and nowhere else, and `GenError.bare` leaves it out there.

* `Target.toNative_bare` and its siblings — each stage gives the same code for a bare field, or the
  same error up to the description of a type;
* `valueClass_bare`, `transferStruct_bare` — so do the two classes of a struct.
-/

set_option autoImplicit false

namespace InteropGen

open CSharp

/-- A shape that refers to structs and unions by their names. -/
def Shape.bare : Shape → Shape
  | .struct s => .struct ⟨s.name, [], none⟩
  | .union u => .union ⟨u.name, []⟩
  | .array element dims => .array element.bare dims
  | .sequence element maxBound => .sequence element.bare maxBound
  | .primitive kind => .primitive kind
  | .string kind => .string kind
  | .enum e => .enum e

/-- An element that refers to a struct by its name. -/
def Element.bare : Element → Element
  | .struct s => .struct ⟨s.name, [], none⟩
  | .primitive kind => .primitive kind
  | .string kind => .string kind
  | .enum e => .enum e

/-- A field without the texts for messages. -/
def FieldView.bare (f : FieldView) : FieldView :=
  ⟨f.site, f.shape.bare, "", ""⟩

/-- An error without the description of the type that it is about. -/
def GenError.bare : GenError → GenError
  | nestedAggregate site _ => nestedAggregate site ""
  | unsupportedElement site _ container => unsupportedElement site "" container
  | invalidConstant declaration _ value => invalidConstant declaration "" value
  | unsupportedUnion declaration construct => unsupportedUnion declaration construct
  | enumSequence site element layout => enumSequence site element layout
  | invalidDimensions site dims => invalidDimensions site dims

/-- A result whose error, if it is one, does not describe types. -/
def bareResult {α : Type} (result : Except GenError α) : Except GenError α :=
  result.mapError GenError.bare

section
variable {α β γ : Type}

@[simp] theorem bareResult_ok (a : α) : bareResult (.ok a) = .ok a := rfl

@[simp] theorem bareResult_pure (a : α) : bareResult (pure a) = pure a := rfl

@[simp] theorem bareResult_error (e : GenError) :
    bareResult (.error e : Except GenError α) = .error e.bare := rfl

theorem bareResult_map (f : α → β) (result : Except GenError α) :
    bareResult (result.map f) = (bareResult result).map f := by
  cases result <;> rfl

/-- A computation goes on alike after a first step that gives the same up to `r`. -/
theorem bareResult_bind (r : α → γ) {step : Except GenError α} {step' : Except GenError γ}
    {next : α → Except GenError β} {next' : γ → Except GenError β}
    (hstep : step' = (bareResult step).map r) (hnext : ∀ a, next' (r a) = bareResult (next a)) :
    (step' >>= next') = bareResult (step >>= next) := by
  subst hstep
  cases step with
  | error e => rfl
  | ok a => exact hnext a

/-- The same if the first step gives the same. -/
theorem bareResult_bind_same {step step' : Except GenError α} {next next' : α → Except GenError β}
    (hstep : step' = bareResult step) (hnext : ∀ a, next' a = bareResult (next a)) :
    (step' >>= next') = bareResult (step >>= next) := by
  subst hstep
  cases step with
  | error e => rfl
  | ok a => exact hnext a

theorem bareResult_mapM (r : α → α) (f : α → Except GenError β)
    (h : ∀ a, f (r a) = bareResult (f a)) (items : List α) :
    (items.map r).mapM f = bareResult (items.mapM f) := by
  induction items with
  | nil => rfl
  | cons item rest ih =>
    rw [List.map_cons, List.mapM_cons, List.mapM_cons]
    exact bareResult_bind_same (h item) fun _ => bareResult_bind_same ih fun _ => rfl

end

namespace Draft

variable {α β γ : Type}

/-- A draft whose error, if it ended with one, does not describe types. -/
def bare (d : Draft α) : Draft α :=
  ⟨d.stmts, d.notes, bareResult d.outcome⟩

@[simp] theorem bare_pure (a : α) : (pure a : Draft α).bare = pure a := rfl

@[simp] theorem bare_write (stmts : List Stmt) : (write stmts).bare = write stmts := rfl

@[simp] theorem bare_note (d : Diagnostic) : (note d).bare = note d := rfl

theorem bare_bind {d d' : Draft α} {next next' : α → Draft β} (hd : d' = d.bare)
    (hnext : ∀ a, next' a = (next a).bare) : (d' >>= next') = (d >>= next).bare := by
  subst hd
  obtain ⟨stmts, notes, outcome⟩ := d
  cases outcome with
  | error e => rfl
  | ok a =>
    show Draft.bind _ _ = (Draft.bind _ _).bare
    simp [Draft.bind, bare, hnext]

/-- A result that is the same up to `r` is taken over. -/
theorem bare_bind_lift (r : α → γ) {step : Except GenError α} {step' : Except GenError γ}
    {next : α → Draft β} {next' : γ → Draft β} (hstep : step' = (bareResult step).map r)
    (hnext : ∀ a, next' (r a) = (next a).bare) :
    (lift step' >>= next') = (lift step >>= next).bare := by
  subst hstep
  cases step with
  | error e => rfl
  | ok a =>
    show Draft.bind _ _ = (Draft.bind _ _).bare
    simp [Draft.bind, bare, lift, hnext, Except.map]

/-- The same if the result is the same. -/
theorem bare_bind_lift_same {step step' : Except GenError α} {next next' : α → Draft β}
    (hstep : step' = bareResult step) (hnext : ∀ a, next' a = (next a).bare) :
    (lift step' >>= next') = (lift step >>= next).bare :=
  bare_bind (hstep ▸ rfl) hnext

theorem bare_each (r : α → α) (draft : α → Draft Unit) (h : ∀ a, draft (r a) = (draft a).bare)
    (items : List α) : Draft.each (items.map r) draft = (Draft.each items draft).bare := by
  induction items with
  | nil => rfl
  | cons item rest ih => exact bare_bind (h item) fun _ => ih

end Draft

section
variable (site : Site)

theorem Element.classify_bare (container : Container) (written : String) (shape : Shape) :
    Element.classify site container "" shape.bare =
      (bareResult (Element.classify site container written shape)).map Element.bare := by
  cases shape <;> rfl

theorem checkDims_bare (dims : List Nat) :
    checkDims site dims = bareResult (checkDims site dims) := by
  unfold checkDims
  split
  · rfl
  · split
    · split <;> rfl
    · rfl

theorem arrayTransfer_bare (element : Element) (dims : List Nat) :
    arrayTransfer site element.bare dims = bareResult (arrayTransfer site element dims) := by
  refine bareResult_bind_same (checkDims_bare site dims) fun length => ?_
  cases element <;> rfl

theorem noteElementPrecision_bare (element : Element) :
    noteElementPrecision site element.bare = (noteElementPrecision site element).bare := by
  cases element with
  | primitive kind => cases kind <;> rfl
  | _ => rfl

theorem notePrecision_bare (kind : PrimitiveKind) :
    notePrecision site kind = (notePrecision site kind).bare := by
  cases kind <;> rfl

end

namespace Target

variable (t : Target)

theorem sequenceElement_bare (f : FieldView) (shape : Shape) :
    t.sequenceElement f.bare shape.bare =
      (bareResult (t.sequenceElement f shape)).map Element.bare := by
  cases shape with
  | enum e =>
    show (if t.layout.supportsEnumSequences then _ else _) =
      (bareResult (if t.layout.supportsEnumSequences then _ else _)).map _
    cases t.layout.supportsEnumSequences <;> rfl
  | _ => rfl

theorem valueType_bare (site : Site) (shape : Shape) :
    t.valueType site shape.bare = bareResult (t.valueType site shape) := by
  induction shape with
  | array element dims ih =>
    exact bareResult_bind_same (checkDims_bare site dims) fun _ =>
      bareResult_bind_same ih fun _ => rfl
  | sequence element maxBound ih => exact bareResult_bind_same ih fun _ => rfl
  | _ => rfl

theorem defaultValue_bare (site : Site) (shape : Shape) :
    t.defaultValue site shape.bare = bareResult (t.defaultValue site shape) := by
  cases shape with
  | array element dims =>
    exact bareResult_bind_same (checkDims_bare site dims) fun _ =>
      bareResult_bind_same (t.valueType_bare site element) fun _ => rfl
  | sequence element maxBound =>
    exact bareResult_bind_same (t.valueType_bare site element) fun _ => rfl
  | _ => rfl

variable (depth : Nat) (f : FieldView)

theorem fillArray_bare (element : Element) (dims : List Nat) :
    t.fillArray depth f.bare element.bare dims = t.fillArray depth f element dims := by
  cases element <;> rfl

theorem needsElementInit_bare (layout : Layout) (element : Shape) (dims : List Nat) :
    layout.needsElementInit element.bare dims = layout.needsElementInit element dims := by
  cases element <;> rfl

theorem initial_bare : t.initial depth f.bare = (t.initial depth f).bare := by
  obtain ⟨site, shape, typeText, elementText⟩ := f
  unfold initial
  refine Draft.bare_bind_lift_same (t.defaultValue_bare site shape) fun value =>
    Draft.bare_bind rfl fun _ => ?_
  cases shape with
  | array element dims =>
    simp only [FieldView.bare, Shape.bare, needsElementInit_bare]
    split
    · refine Draft.bare_bind_lift _ (Element.classify_bare site _ _ element) fun e => ?_
      rw [Draft.bare_write]
      exact congrArg Draft.write (t.fillArray_bare depth ⟨site, .array element dims, _, _⟩ e dims)
    · rfl
  | _ => rfl

theorem inlineArrayToNative_bare (element : Element) (dims : List Nat) (length : Nat) :
    t.inlineArrayToNative depth f.bare element.bare dims length =
      t.inlineArrayToNative depth f element dims length := by
  cases element <;> rfl

theorem outOfLineArrayToNative_bare (element : Element) (dims : List Nat) (length : Nat) :
    t.outOfLineArrayToNative depth f.bare element.bare dims length =
      t.outOfLineArrayToNative depth f element dims length := by
  cases element <;> rfl

theorem sequenceToNative_bare (element : Element) (maxBound : Nat) :
    t.sequenceToNative depth f.bare element.bare maxBound =
      t.sequenceToNative depth f element maxBound := by
  cases element <;> rfl

theorem toNative_bare : t.toNative depth f.bare = (t.toNative depth f).bare := by
  obtain ⟨site, shape, typeText, elementText⟩ := f
  cases shape with
  | primitive kind => exact Draft.bare_bind (notePrecision_bare site kind) fun _ => rfl
  | array element dims =>
    refine Draft.bare_bind_lift _ (Element.classify_bare site _ _ element) fun e =>
      Draft.bare_bind (noteElementPrecision_bare site e) fun _ =>
      Draft.bare_bind_lift_same (arrayTransfer_bare site e dims) fun transfer => ?_
    cases transfer with
    | inline length =>
      exact congrArg Draft.write
        (t.inlineArrayToNative_bare depth ⟨site, .array element dims, _, _⟩ e dims length)
    | outOfLine length =>
      exact congrArg Draft.write
        (t.outOfLineArrayToNative_bare depth ⟨site, .array element dims, _, _⟩ e dims length)
  | sequence element maxBound =>
    refine Draft.bare_bind_lift _ (t.sequenceElement_bare _ element) fun e =>
      Draft.bare_bind (noteElementPrecision_bare site e) fun _ => ?_
    exact congrArg Draft.write
      (t.sequenceToNative_bare depth ⟨site, .sequence element maxBound, _, _⟩ e maxBound)
  | _ => rfl

theorem inlineArrayFromNative_bare (element : Element) (dims : List Nat) (length : Nat) :
    t.inlineArrayFromNative depth f.bare element.bare dims length =
      t.inlineArrayFromNative depth f element dims length := by
  cases element <;> rfl

theorem outOfLineArrayFromNative_bare (element : Element) (dims : List Nat) :
    t.outOfLineArrayFromNative depth f.bare element.bare dims =
      t.outOfLineArrayFromNative depth f element dims := by
  cases element <;> rfl

theorem sequenceFromNative_bare (element : Element) (maxBound : Nat) (fresh : Expr) :
    t.sequenceFromNative depth f.bare element.bare maxBound fresh =
      t.sequenceFromNative depth f element maxBound fresh := by
  cases element <;> rfl

theorem fromNative_bare : t.fromNative depth f.bare = (t.fromNative depth f).bare := by
  obtain ⟨site, shape, typeText, elementText⟩ := f
  cases shape with
  | primitive kind => exact Draft.bare_bind (notePrecision_bare site kind) fun _ => rfl
  | array element dims =>
    refine Draft.bare_bind_lift _ (Element.classify_bare site _ _ element) fun e =>
      Draft.bare_bind (noteElementPrecision_bare site e) fun _ =>
      Draft.bare_bind ?_ fun _ =>
      Draft.bare_bind_lift_same (arrayTransfer_bare site e dims) fun transfer => ?_
    · cases e <;> rfl
    · cases transfer with
      | inline length =>
        exact congrArg Draft.write
          (t.inlineArrayFromNative_bare depth ⟨site, .array element dims, _, _⟩ e dims length)
      | outOfLine length =>
        exact congrArg Draft.write
          (t.outOfLineArrayFromNative_bare depth ⟨site, .array element dims, _, _⟩ e dims)
  | sequence element maxBound =>
    refine Draft.bare_bind_lift_same (t.defaultValue_bare site (.sequence element maxBound))
      fun fresh => Draft.bare_bind_lift _ (t.sequenceElement_bare _ element) fun e =>
      Draft.bare_bind (noteElementPrecision_bare site e) fun _ => ?_
    exact congrArg Draft.write
      (t.sequenceFromNative_bare depth ⟨site, .sequence element maxBound, _, _⟩ e maxBound fresh)
  | _ => rfl

theorem releaseNative_bare : releaseNative depth f.bare = (releaseNative depth f).bare := by
  obtain ⟨site, shape, typeText, elementText⟩ := f
  cases shape with
  | array element dims =>
    refine Draft.bare_bind_lift _ (Element.classify_bare site _ _ element) fun e =>
      Draft.bare_bind_lift_same (arrayTransfer_bare site e dims) fun transfer => ?_
    cases e <;> cases transfer <;> rfl
  | _ => rfl

theorem wireElement_bare (container : Container) (shape : Shape) :
    wireElement f.bare container shape.bare =
      (bareResult (wireElement f container shape)).map fun e => (e.1.bare, e.2) := by
  cases shape <;> rfl

theorem encode_bare : t.encode depth f.bare = (t.encode depth f).bare := by
  obtain ⟨site, shape, typeText, elementText⟩ := f
  cases shape with
  | array element dims =>
    exact Draft.bare_bind_lift _ (wireElement_bare _ _ element) fun e =>
      Draft.bare_bind_lift_same (checkDims_bare site dims) fun length => rfl
  | sequence element maxBound =>
    exact Draft.bare_bind_lift _ (wireElement_bare _ _ element) fun e => rfl
  | _ => rfl

theorem decode_bare : t.decode depth f.bare = (t.decode depth f).bare := by
  obtain ⟨site, shape, typeText, elementText⟩ := f
  cases shape with
  | array element dims =>
    refine Draft.bare_bind_lift _ (wireElement_bare _ _ element) fun e =>
      Draft.bare_bind_lift_same (checkDims_bare site dims) fun length => ?_
    obtain ⟨e, tag⟩ := e
    cases e <;> rfl
  | sequence element maxBound =>
    exact Draft.bare_bind_lift _ (wireElement_bare _ _ element) fun e => rfl
  | _ => rfl

theorem property_bare : t.property f.bare = bareResult (t.property f) :=
  bareResult_bind_same (t.valueType_bare f.site f.shape) fun _ => rfl

theorem transferType_bare : t.transferType f.bare = bareResult (t.transferType f) := by
  obtain ⟨site, shape, typeText, elementText⟩ := f
  cases shape with
  | array element dims =>
    refine bareResult_bind _ (Element.classify_bare site _ _ element) fun e =>
      bareResult_bind_same (arrayTransfer_bare site e dims) fun transfer => ?_
    cases e <;> cases transfer <;> rfl
  | _ => rfl

theorem transferAttribute_bare : t.transferAttribute f.bare = bareResult (t.transferAttribute f) := by
  obtain ⟨site, shape, typeText, elementText⟩ := f
  cases shape with
  | array element dims =>
    refine bareResult_bind _ (Element.classify_bare site _ _ element) fun e =>
      bareResult_bind_same (arrayTransfer_bare site e dims) fun transfer => ?_
    cases e <;> cases transfer <;> rfl
  | _ => rfl

theorem transferField_bare : t.transferField f.bare = bareResult (t.transferField f) :=
  bareResult_bind_same (t.transferAttribute_bare f) fun _ =>
    bareResult_bind_same (t.transferType_bare f) fun _ => rfl

end Target

section
variable (t : Target) (fields : List FieldView)

theorem methodBody_bare (draft : Nat → FieldView → Draft Unit)
    (h : ∀ f, draft 0 f.bare = (draft 0 f).bare) :
    methodBody (fields.map FieldView.bare) draft = bareResult (methodBody fields draft) := by
  unfold methodBody
  rw [Draft.bare_each FieldView.bare (draft 0) h]
  exact (bareResult_map _ _).symm

namespace Target

theorem codecBodies_bare :
    t.codecBodies (fields.map FieldView.bare) = bareResult (t.codecBodies fields) :=
  bareResult_bind_same (methodBody_bare fields t.encode (t.encode_bare 0)) fun _ =>
    bareResult_bind_same (methodBody_bare fields t.decode (t.decode_bare 0)) fun _ => rfl

theorem valueClass_bare (codec : Bool) (s s' : StructType) (hname : s'.name = s.name) :
    t.valueClass codec s' (fields.map FieldView.bare) =
      bareResult (t.valueClass codec s fields) := by
  unfold valueClass
  rw [hname]
  refine bareResult_bind_same (bareResult_mapM _ t.property t.property_bare fields) fun _ =>
    bareResult_bind_same (methodBody_bare fields t.initial (t.initial_bare 0)) fun _ =>
    bareResult_bind_same (methodBody_bare fields t.toNative (t.toNative_bare 0)) fun _ =>
    bareResult_bind_same (methodBody_bare fields t.fromNative (t.fromNative_bare 0)) fun _ =>
    bareResult_bind_same (methodBody_bare fields releaseNative (releaseNative_bare 0)) fun _ => ?_
  cases codec with
  | false => rfl
  | true => exact bareResult_bind_same (t.codecBodies_bare fields) fun _ => rfl

theorem transferStruct_bare (s s' : StructType) (hname : s'.name = s.name) :
    t.transferStruct s' (fields.map FieldView.bare) = bareResult (t.transferStruct s fields) := by
  unfold transferStruct
  rw [hname]
  exact bareResult_bind_same (bareResult_mapM _ t.transferField t.transferField_bare fields)
    fun _ => rfl

end Target

end

end InteropGen

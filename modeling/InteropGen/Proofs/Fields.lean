import InteropGen.Proofs.Dimensions
import InteropGen.Proofs.Draft

/-!
# Fields that can be transferred or encoded

Which shapes the stages of struct generation accept. Two conditions decide everything:
`Shape.Transferable` for the conversions and `Shape.Encodable` for the wire codec; the property
type, the constructor, the release and the transfer-struct field of a transferable shape always
succeed.

* `Target.toNative_finishes_iff`, `Target.fromNative_finishes_iff` — the conversions accept the
  same shapes;
* `Target.encode_finishes_iff`, `Target.decode_finishes_iff` — so do the two codec directions.
-/

set_option autoImplicit false

namespace InteropGen

open CSharp

/-- The shape of an element. -/
def Element.shape : Element → Shape
  | .primitive kind => .primitive kind
  | .string kind => .string kind
  | .enum e => .enum e
  | .struct s => .struct s

theorem Element.classify_ok_iff (site : Site) (container : Container) (written : String)
    (shape : Shape) (element : Element) :
    Element.classify site container written shape = .ok element ↔ shape = element.shape := by
  cases shape <;> cases element <;> simp [Element.classify, Element.shape]

theorem Element.classify_shape (site : Site) (container : Container) (written : String)
    (element : Element) :
    Element.classify site container written element.shape = .ok element :=
  (Element.classify_ok_iff site container written element.shape element).mpr rfl

/-- The layout has a native sequence bridge for the element. -/
def Layout.Bridges (layout : Layout) (element : Element) : Prop :=
  layout = .rectangular → ∀ e, element ≠ .enum e

/-- What the conversions accept. -/
def Shape.Transferable (layout : Layout) : Shape → Prop
  | .primitive _ | .string _ | .enum _ | .struct _ => True
  | .union _ => False
  | .array element dims => (∃ e : Element, element = e.shape) ∧ ValidDims dims
  | .sequence element _ => ∃ e : Element, element = e.shape ∧ layout.Bridges e

/-- Elements with a wire tag. -/
def Shape.IsFlat : Shape → Prop
  | .primitive _ | .string _ => True
  | _ => False

/-- What the wire codec accepts. -/
def Shape.Encodable : Shape → Prop
  | .primitive _ | .string _ | .enum _ => True
  | .struct _ | .union _ => False
  | .array element dims => element.IsFlat ∧ ValidDims dims
  | .sequence element _ => element.IsFlat

theorem notePrecision_outcome (site : Site) (kind : PrimitiveKind) :
    (notePrecision site kind).outcome = .ok () := by
  unfold notePrecision
  split <;> rfl

theorem noteElementPrecision_outcome (site : Site) (element : Element) :
    (noteElementPrecision site element).outcome = .ok () := by
  cases element with
  | primitive kind => exact notePrecision_outcome site kind
  | string kind => rfl
  | enum e => rfl
  | struct s => rfl

@[simp] theorem notePrecision_stmts (site : Site) (kind : PrimitiveKind) :
    (notePrecision site kind).stmts = [] := by
  unfold notePrecision
  split <;> rfl

@[simp] theorem noteElementPrecision_stmts (site : Site) (element : Element) :
    (noteElementPrecision site element).stmts = [] := by
  cases element with
  | primitive kind => exact notePrecision_stmts site kind
  | string kind => rfl
  | enum e => rfl
  | struct s => rfl

/-- How an array of an element with valid dimensions sits in its transfer struct. -/
def Element.transfer (element : Element) (dims : List Nat) : ArrayTransfer :=
  match element with
  | .struct _ => if multiDimensional dims then .outOfLine dims.prod else .inline dims.prod
  | _ => .inline dims.prod

theorem Element.transfer_eq_inline {element : Element} {dims : List Nat} {length : Nat}
    (h : element.transfer dims = .inline length) :
    length = dims.prod ∧ ∀ s, element = .struct s → multiDimensional dims = false := by
  cases element with
  | struct s =>
    by_cases hmulti : multiDimensional dims = true
    · simp [Element.transfer, hmulti] at h
    · simp only [Element.transfer, if_neg hmulti, ArrayTransfer.inline.injEq] at h
      exact ⟨h.symm, fun _ _ => by simpa using hmulti⟩
  | primitive kind => cases h; exact ⟨rfl, nofun⟩
  | string kind => cases h; exact ⟨rfl, nofun⟩
  | enum e => cases h; exact ⟨rfl, nofun⟩

theorem Element.transfer_eq_outOfLine {element : Element} {dims : List Nat} {length : Nat}
    (h : element.transfer dims = .outOfLine length) :
    length = dims.prod ∧ ∃ s, element = .struct s := by
  cases element with
  | struct s =>
    by_cases hmulti : multiDimensional dims = true
    · simp only [Element.transfer, if_pos hmulti, ArrayTransfer.outOfLine.injEq] at h
      exact ⟨h.symm, s, rfl⟩
    · simp [Element.transfer, hmulti] at h
  | primitive kind => cases h
  | string kind => cases h
  | enum e => cases h

theorem arrayTransfer_ok_iff (site : Site) (element : Element) (dims : List Nat)
    (transfer : ArrayTransfer) :
    arrayTransfer site element dims = .ok transfer ↔
      ValidDims dims ∧ transfer = element.transfer dims := by
  unfold arrayTransfer
  simp only [except_bind_ok_iff, checkDims_ok_iff]
  constructor
  · rintro ⟨n, ⟨valid, rfl⟩, h⟩
    refine ⟨valid, ?_⟩
    cases element with
    | struct s => exact (Except.ok.inj h).symm
    | primitive kind => exact (Except.ok.inj h).symm
    | string kind => exact (Except.ok.inj h).symm
    | enum e => exact (Except.ok.inj h).symm
  · rintro ⟨valid, rfl⟩
    exact ⟨dims.prod, ⟨valid, rfl⟩, by cases element <;> rfl⟩

theorem arrayTransfer_of_valid (site : Site) (element : Element) (dims : List Nat)
    (valid : ValidDims dims) :
    arrayTransfer site element dims = .ok (element.transfer dims) :=
  (arrayTransfer_ok_iff site element dims _).mpr ⟨valid, rfl⟩

namespace Target

variable (t : Target)

theorem sequenceElement_ok_iff (f : FieldView) (shape : Shape) (element : Element) :
    t.sequenceElement f shape = .ok element ↔
      shape = element.shape ∧ t.layout.Bridges element := by
  unfold sequenceElement
  simp only [except_bind_ok_iff, Element.classify_ok_iff]
  constructor
  · rintro ⟨classified, rfl, h⟩
    cases classified with
    | enum e =>
      by_cases hbridge : t.layout.supportsEnumSequences = true
      · simp only [hbridge, if_true, pure, Except.pure, Except.ok.injEq] at h
        subst h
        refine ⟨rfl, fun hrect => ?_⟩
        rw [hrect] at hbridge
        cases hbridge
      · simp [hbridge, throw, throwThe, MonadExceptOf.throw] at h
    | primitive kind => cases h; exact ⟨rfl, by simp [Layout.Bridges]⟩
    | string kind => cases h; exact ⟨rfl, by simp [Layout.Bridges]⟩
    | struct s => cases h; exact ⟨rfl, by simp [Layout.Bridges]⟩
  · rintro ⟨rfl, bridges⟩
    refine ⟨element, rfl, ?_⟩
    cases element with
    | enum e =>
      cases hlayout : t.layout with
      | rectangular => exact absurd rfl (bridges hlayout e)
      | jagged => rfl
    | primitive kind => rfl
    | string kind => rfl
    | struct s => rfl

theorem valueType_element (site : Site) (element : Element) :
    t.valueType site element.shape = .ok element.valueType := by
  cases element <;> rfl

theorem valueType_array (site : Site) (element : Element) (dims : List Nat)
    (valid : ValidDims dims) :
    t.valueType site (.array element.shape dims) =
      .ok (t.layout.arrayType element.valueType dims.length) := by
  simp only [valueType, checkDims_of_valid site dims valid, t.valueType_element site element]
  rfl

theorem valueType_sequence (site : Site) (element : Element) (maxBound : Nat) :
    t.valueType site (.sequence element.shape maxBound) =
      .ok (.listInterface element.valueType) := by
  simp only [valueType, t.valueType_element site element]
  rfl

theorem defaultValue_array (site : Site) (element : Element) (dims : List Nat)
    (valid : ValidDims dims) :
    t.defaultValue site (.array element.shape dims) =
      .ok (t.layout.arrayAllocation element.valueType dims) := by
  simp only [defaultValue, checkDims_of_valid site dims valid, t.valueType_element site element]
  rfl

theorem defaultValue_sequence (site : Site) (element : Element) (maxBound : Nat) :
    t.defaultValue site (.sequence element.shape maxBound) =
      .ok (listAllocation element.valueType maxBound) := by
  simp only [defaultValue, t.valueType_element site element]
  rfl

theorem toNative_finishes_iff (depth : Nat) (f : FieldView) :
    (t.toNative depth f).Finishes ↔ f.shape.Transferable t.layout := by
  unfold toNative
  cases f.shape with
  | primitive kind =>
    simp [Draft.finishes_bind, notePrecision_outcome, Shape.Transferable]
  | string kind => simp [Shape.Transferable]
  | enum e => simp [Shape.Transferable]
  | struct s => simp [Shape.Transferable]
  | union u => simp [Shape.Transferable]
  | array elementShape dims =>
    simp only [Draft.finishes_bind, Draft.outcome_lift, Element.classify_ok_iff,
      noteElementPrecision_outcome, arrayTransfer_ok_iff, Shape.Transferable]
    constructor
    · rintro ⟨element, helement, _, _, _, ⟨valid, _⟩, _⟩
      exact ⟨⟨element, helement⟩, valid⟩
    · rintro ⟨⟨element, helement⟩, valid⟩
      refine ⟨element, helement, (), trivial, _, ⟨valid, rfl⟩, ?_⟩
      cases element.transfer dims <;> simp
  | sequence elementShape maxBound =>
    simp only [Draft.finishes_bind, Draft.outcome_lift, sequenceElement_ok_iff,
      noteElementPrecision_outcome, Shape.Transferable]
    constructor
    · rintro ⟨element, hok, _⟩
      exact ⟨element, hok⟩
    · rintro ⟨element, hok⟩
      exact ⟨element, hok, (), trivial, by simp⟩

theorem valueType_ok {layout : Layout} (site : Site) (shape : Shape)
    (h : shape.Transferable layout) :
    ∃ type, t.valueType site shape = .ok type := by
  cases shape with
  | primitive kind => exact ⟨_, rfl⟩
  | string kind => exact ⟨_, rfl⟩
  | enum e => exact ⟨_, rfl⟩
  | struct s => exact ⟨_, rfl⟩
  | union u => exact absurd h id
  | array elementShape dims =>
    obtain ⟨⟨element, rfl⟩, valid⟩ := h
    exact ⟨_, t.valueType_array site element dims valid⟩
  | sequence elementShape maxBound =>
    obtain ⟨element, rfl, _⟩ := h
    exact ⟨_, t.valueType_sequence site element maxBound⟩

theorem defaultValue_ok {layout : Layout} (site : Site) (shape : Shape)
    (h : shape.Transferable layout) :
    ∃ value, t.defaultValue site shape = .ok value := by
  cases shape with
  | primitive kind => exact ⟨_, rfl⟩
  | string kind => exact ⟨_, rfl⟩
  | enum e => exact ⟨_, rfl⟩
  | struct s => exact ⟨_, rfl⟩
  | union u => exact absurd h id
  | array elementShape dims =>
    obtain ⟨⟨element, rfl⟩, valid⟩ := h
    exact ⟨_, t.defaultValue_array site element dims valid⟩
  | sequence elementShape maxBound =>
    obtain ⟨element, rfl, _⟩ := h
    exact ⟨_, t.defaultValue_sequence site element maxBound⟩

theorem fromNative_finishes_iff (depth : Nat) (f : FieldView) :
    (t.fromNative depth f).Finishes ↔ f.shape.Transferable t.layout := by
  unfold fromNative
  cases hshape : f.shape with
  | primitive kind =>
    simp [Draft.finishes_bind, notePrecision_outcome, Shape.Transferable]
  | string kind => simp [Shape.Transferable]
  | enum e => simp [Shape.Transferable]
  | struct s => simp [Shape.Transferable]
  | union u => simp [Shape.Transferable]
  | array elementShape dims =>
    simp only [Draft.finishes_bind, Draft.outcome_lift, Draft.outcome_write,
      Element.classify_ok_iff, noteElementPrecision_outcome, arrayTransfer_ok_iff,
      Shape.Transferable]
    constructor
    · rintro ⟨element, helement, _, _, _, _, _, ⟨valid, _⟩, _⟩
      exact ⟨⟨element, helement⟩, valid⟩
    · rintro ⟨⟨element, helement⟩, valid⟩
      refine ⟨element, helement, (), trivial, (), trivial, _, ⟨valid, rfl⟩, ?_⟩
      cases element.transfer dims <;> simp
  | sequence elementShape maxBound =>
    simp only [Draft.finishes_bind, Draft.outcome_lift, sequenceElement_ok_iff,
      noteElementPrecision_outcome, Shape.Transferable]
    constructor
    · rintro ⟨_, _, element, hok, _⟩
      exact ⟨element, hok⟩
    · rintro ⟨element, hok⟩
      obtain ⟨value, hvalue⟩ := t.defaultValue_ok f.site (.sequence elementShape maxBound)
        ⟨element, hok⟩
      exact ⟨value, hvalue, element, hok, (), trivial, by simp⟩

theorem initial_finishes (depth : Nat) (f : FieldView) (h : f.shape.Transferable t.layout) :
    (t.initial depth f).Finishes := by
  obtain ⟨value, hvalue⟩ := t.defaultValue_ok f.site f.shape h
  unfold initial
  rw [Draft.finishes_bind_of_ok _ _ value hvalue, Draft.finishes_bind_of_ok _ _ () rfl]
  cases hshape : f.shape with
  | array elementShape dims =>
    rw [hshape] at h
    obtain ⟨⟨element, rfl⟩, _⟩ := h
    by_cases hinit : t.layout.needsElementInit element.shape dims = true
    · have hclassified : ∃ e : Element, element.shape = e.shape := ⟨element, rfl⟩
      simp [hinit, Draft.finishes_bind, Element.classify_ok_iff, hclassified]
    · simp [hinit]
  | primitive kind => simp
  | string kind => simp
  | enum e => simp
  | struct s => simp
  | union u => simp
  | sequence elementShape maxBound => simp

theorem releaseNative_finishes (depth : Nat) (f : FieldView)
    (h : f.shape.Transferable t.layout) : (releaseNative depth f).Finishes := by
  unfold releaseNative
  cases hshape : f.shape with
  | array elementShape dims =>
    rw [hshape] at h
    obtain ⟨⟨element, rfl⟩, valid⟩ := h
    simp only [Draft.finishes_bind, Draft.outcome_lift, Element.classify_ok_iff,
      arrayTransfer_ok_iff]
    exact ⟨element, rfl, _, ⟨valid, rfl⟩, by simp⟩
  | union u =>
    rw [hshape] at h
    exact absurd h id
  | primitive kind => simp
  | string kind => simp
  | enum e => simp
  | struct s => simp
  | sequence elementShape maxBound => simp

theorem transferType_ok {layout : Layout} (f : FieldView) (h : f.shape.Transferable layout) :
    ∃ type, t.transferType f = .ok type := by
  unfold transferType
  cases hshape : f.shape with
  | array elementShape dims =>
    rw [hshape] at h
    obtain ⟨⟨element, rfl⟩, valid⟩ := h
    simp only [except_bind_ok_iff, Element.classify_ok_iff, arrayTransfer_ok_iff]
    cases htransfer : element.transfer dims with
    | inline length => exact ⟨_, element, rfl, _, ⟨valid, htransfer.symm⟩, rfl⟩
    | outOfLine length => exact ⟨_, element, rfl, _, ⟨valid, htransfer.symm⟩, rfl⟩
  | union u =>
    rw [hshape] at h
    exact absurd h id
  | primitive kind => exact ⟨_, rfl⟩
  | string kind => exact ⟨_, rfl⟩
  | enum e => exact ⟨_, rfl⟩
  | struct s => exact ⟨_, rfl⟩
  | sequence elementShape maxBound => exact ⟨_, rfl⟩

theorem transferAttribute_ok {layout : Layout} (f : FieldView) (h : f.shape.Transferable layout) :
    ∃ marshalAs, t.transferAttribute f = .ok marshalAs := by
  unfold transferAttribute
  cases hshape : f.shape with
  | array elementShape dims =>
    rw [hshape] at h
    obtain ⟨⟨element, rfl⟩, valid⟩ := h
    simp only [except_bind_ok_iff, Element.classify_ok_iff, arrayTransfer_ok_iff]
    cases htransfer : element.transfer dims with
    | inline length =>
      cases element with
      | primitive kind => exact ⟨_, .primitive kind, rfl, _, ⟨valid, htransfer.symm⟩, rfl⟩
      | string kind => exact ⟨_, .string kind, rfl, _, ⟨valid, htransfer.symm⟩, rfl⟩
      | enum e => exact ⟨_, .enum e, rfl, _, ⟨valid, htransfer.symm⟩, rfl⟩
      | struct s => exact ⟨_, .struct s, rfl, _, ⟨valid, htransfer.symm⟩, rfl⟩
    | outOfLine length => exact ⟨_, element, rfl, _, ⟨valid, htransfer.symm⟩, rfl⟩
  | union u =>
    rw [hshape] at h
    exact absurd h id
  | primitive kind => exact ⟨_, rfl⟩
  | string kind => exact ⟨_, rfl⟩
  | enum e => exact ⟨_, rfl⟩
  | struct s => exact ⟨_, rfl⟩
  | sequence elementShape maxBound => exact ⟨_, rfl⟩

end Target

/-- The wire tag of an element, if it has one. -/
def Element.wireTag? : Element → Option WireTag
  | .primitive kind => some kind.wireTag
  | .string kind => some kind.wireTag
  | .enum _ | .struct _ => none

theorem Element.isFlat_iff (element : Element) :
    element.shape.IsFlat ↔ ∃ tag, element.wireTag? = some tag := by
  cases element <;> simp [Element.shape, Shape.IsFlat, Element.wireTag?]

theorem wireElement_ok_iff (f : FieldView) (container : Container) (shape : Shape)
    (element : Element) (tag : WireTag) :
    wireElement f container shape = .ok (element, tag) ↔
      shape = element.shape ∧ element.wireTag? = some tag := by
  unfold wireElement
  simp only [except_bind_ok_iff, Element.classify_ok_iff]
  constructor
  · rintro ⟨classified, rfl, h⟩
    cases classified with
    | primitive kind => cases h; exact ⟨rfl, rfl⟩
    | string kind => cases h; exact ⟨rfl, rfl⟩
    | enum e => simp [throw, throwThe, MonadExceptOf.throw] at h
    | struct s => simp [throw, throwThe, MonadExceptOf.throw] at h
  · rintro ⟨rfl, htag⟩
    refine ⟨element, rfl, ?_⟩
    cases element with
    | primitive kind => cases htag; rfl
    | string kind => cases htag; rfl
    | enum e => cases htag
    | struct s => cases htag

theorem exists_wireElement_iff (f : FieldView) (container : Container) (shape : Shape) :
    (∃ result, wireElement f container shape = .ok result) ↔ shape.IsFlat := by
  constructor
  · rintro ⟨⟨element, tag⟩, h⟩
    obtain ⟨rfl, htag⟩ := (wireElement_ok_iff f container shape element tag).mp h
    exact (element.isFlat_iff).mpr ⟨tag, htag⟩
  · intro h
    obtain ⟨element, rfl⟩ : ∃ e : Element, shape = e.shape := by
      cases shape with
      | primitive kind => exact ⟨.primitive kind, rfl⟩
      | string kind => exact ⟨.string kind, rfl⟩
      | _ => exact absurd h id
    obtain ⟨tag, htag⟩ := (element.isFlat_iff).mp h
    exact ⟨(element, tag), (wireElement_ok_iff f container _ element tag).mpr ⟨rfl, htag⟩⟩

namespace Target

variable (t : Target)

theorem encode_finishes_iff (depth : Nat) (f : FieldView) :
    (t.encode depth f).Finishes ↔ f.shape.Encodable := by
  unfold encode
  cases f.shape with
  | primitive kind => simp [Shape.Encodable]
  | string kind => simp [Shape.Encodable]
  | enum e => simp [Shape.Encodable]
  | struct s => simp [Shape.Encodable]
  | union u => simp [Shape.Encodable]
  | array elementShape dims =>
    simp only [Draft.finishes_bind, Draft.outcome_lift, checkDims_ok_iff, Shape.Encodable,
      ← exists_wireElement_iff f .array elementShape]
    constructor
    · rintro ⟨result, hresult, _, ⟨valid, _⟩, _⟩
      exact ⟨⟨result, hresult⟩, valid⟩
    · rintro ⟨⟨result, hresult⟩, valid⟩
      exact ⟨result, hresult, dims.prod, ⟨valid, rfl⟩, Draft.finishes_write _⟩
  | sequence elementShape maxBound =>
    simp only [Draft.finishes_bind, Draft.outcome_lift, Shape.Encodable,
      ← exists_wireElement_iff f .sequence elementShape]
    constructor
    · rintro ⟨result, hresult, _⟩
      exact ⟨result, hresult⟩
    · rintro ⟨result, hresult⟩
      exact ⟨result, hresult, Draft.finishes_write _⟩

theorem decode_finishes_iff (depth : Nat) (f : FieldView) :
    (t.decode depth f).Finishes ↔ f.shape.Encodable := by
  unfold decode
  cases f.shape with
  | primitive kind => simp [Shape.Encodable]
  | string kind => simp [Shape.Encodable]
  | enum e => simp [Shape.Encodable]
  | struct s => simp [Shape.Encodable]
  | union u => simp [Shape.Encodable]
  | array elementShape dims =>
    simp only [Draft.finishes_bind, Draft.outcome_lift, checkDims_ok_iff, Shape.Encodable,
      ← exists_wireElement_iff f .array elementShape]
    constructor
    · rintro ⟨result, hresult, _, ⟨valid, _⟩, _⟩
      exact ⟨⟨result, hresult⟩, valid⟩
    · rintro ⟨⟨result, hresult⟩, valid⟩
      exact ⟨result, hresult, dims.prod, ⟨valid, rfl⟩, Draft.finishes_write _⟩
  | sequence elementShape maxBound =>
    simp only [Draft.finishes_bind, Draft.outcome_lift, Shape.Encodable,
      ← exists_wireElement_iff f .sequence elementShape]
    constructor
    · rintro ⟨result, hresult, _⟩
      exact ⟨result, hresult⟩
    · rintro ⟨result, hresult⟩
      exact ⟨result, hresult, Draft.finishes_write _⟩

end Target

end InteropGen

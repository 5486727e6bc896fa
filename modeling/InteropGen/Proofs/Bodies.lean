import InteropGen.Proofs.Fields

/-!
# What the fields of a struct write

The statements of one field in each generated method, by the shape of the field. An element is
written the same way whether it is a field by itself or an element of an inline array.

* `Shape.Transferable.cases`, `Shape.Encodable.cases` — the kinds of field that conversions and the
  wire codec know;
* `Target.valueClass_bodies` — the methods of a value class are what its fields write;
* `Target.structCode_parts`, `Target.constCode_parts` — what the code of a struct and of a constant is
  made of.
-/

set_option autoImplicit false

namespace InteropGen

open CSharp

theorem Shape.Transferable.cases {layout : Layout} {shape : Shape}
    (h : shape.Transferable layout) :
    (∃ e : Element, shape = e.shape) ∨
    (∃ (e : Element) (dims : List Nat), shape = .array e.shape dims ∧ ValidDims dims) ∨
    (∃ (e : Element) (maxBound : Nat), shape = .sequence e.shape maxBound ∧ layout.Bridges e) := by
  cases shape with
  | primitive kind => exact .inl ⟨.primitive kind, rfl⟩
  | string kind => exact .inl ⟨.string kind, rfl⟩
  | enum e => exact .inl ⟨.enum e, rfl⟩
  | struct s => exact .inl ⟨.struct s, rfl⟩
  | union u => exact absurd h id
  | array element dims =>
    obtain ⟨⟨e, rfl⟩, valid⟩ := h
    exact .inr (.inl ⟨e, dims, rfl, valid⟩)
  | sequence element maxBound =>
    obtain ⟨e, rfl, bridges⟩ := h
    exact .inr (.inr ⟨e, maxBound, rfl, bridges⟩)

theorem Shape.Encodable.cases {shape : Shape} (h : shape.Encodable) :
    (∃ (e : Element) (tag : WireTag), shape = e.shape ∧ e.wireTag? = some tag) ∨
    (∃ en, shape = .enum en) ∨
    (∃ (e : Element) (tag : WireTag) (dims : List Nat), shape = .array e.shape dims ∧
      e.wireTag? = some tag ∧ ValidDims dims) ∨
    (∃ (e : Element) (tag : WireTag) (maxBound : Nat), shape = .sequence e.shape maxBound ∧
      e.wireTag? = some tag) := by
  have hflat : ∀ element : Shape, element.IsFlat →
      ∃ (e : Element) (tag : WireTag), element = e.shape ∧ e.wireTag? = some tag := by
    intro element helement
    cases element with
    | primitive kind => exact ⟨.primitive kind, _, rfl, rfl⟩
    | string kind => exact ⟨.string kind, _, rfl, rfl⟩
    | _ => exact absurd helement id
  cases shape with
  | primitive kind => exact .inl ⟨.primitive kind, _, rfl, rfl⟩
  | string kind => exact .inl ⟨.string kind, _, rfl, rfl⟩
  | enum en => exact .inr (.inl ⟨en, rfl⟩)
  | struct s => exact absurd h id
  | union u => exact absurd h id
  | array element dims =>
    obtain ⟨e, tag, rfl, htag⟩ := hflat element h.1
    exact .inr (.inr (.inl ⟨e, tag, dims, rfl, htag, h.2⟩))
  | sequence element maxBound =>
    obtain ⟨e, tag, rfl, htag⟩ := hflat element h
    exact .inr (.inr (.inr ⟨e, tag, maxBound, rfl, htag⟩))

/-- The first value of a property that holds one element. -/
def Element.initialValue : Element → Expr
  | .primitive kind => kind.defaultValue
  | .string _ => .constant .emptyString
  | .enum e => .defaultOf (valueTypeOf e.name)
  | .struct s => .newObject (valueTypeOf s.name) []

/-- The release of one element. -/
def releaseElement (native : Expr) : Element → List Stmt
  | .primitive _ | .enum _ => []
  | .string _ => [resetHandle native]
  | .struct s => [releaseStruct s native]

namespace Target

variable (t : Target) (depth : Nat) (f : FieldView) (e : Element)

theorem toNative_element (h : f.shape = e.shape) :
    (t.toNative depth f).stmts = t.elementToNative e f.value f.native := by
  unfold toNative
  rw [h]
  cases e with
  | primitive kind =>
    show ((notePrecision f.site kind) >>= fun _ => Draft.write _).stmts = _
    rw [Draft.stmts_bind_of_ok _ _ () (notePrecision_outcome f.site kind), notePrecision_stmts]
    rfl
  | string kind => rfl
  | enum e => rfl
  | struct s => rfl

theorem toNative_array (dims : List Nat) (h : f.shape = .array e.shape dims)
    (valid : ValidDims dims) :
    (t.toNative depth f).stmts =
      match e.transfer dims with
      | .inline length => t.inlineArrayToNative depth f e dims length
      | .outOfLine length => t.outOfLineArrayToNative depth f e dims length := by
  unfold toNative
  rw [h]
  simp only [Element.classify_shape]
  rw [Draft.stmts_bind_of_ok _ _ e rfl,
    Draft.stmts_bind_of_ok _ _ () (noteElementPrecision_outcome f.site e),
    Draft.stmts_bind_of_ok _ _ (e.transfer dims) (arrayTransfer_of_valid f.site e dims valid)]
  cases e.transfer dims <;> simp

theorem toNative_sequence (maxBound : Nat) (h : f.shape = .sequence e.shape maxBound)
    (bridges : t.layout.Bridges e) :
    (t.toNative depth f).stmts = t.sequenceToNative depth f e maxBound := by
  have helement := (t.sequenceElement_ok_iff f e.shape e).mpr ⟨rfl, bridges⟩
  unfold toNative
  rw [h]
  simp only [helement]
  rw [Draft.stmts_bind_of_ok _ _ e rfl,
    Draft.stmts_bind_of_ok _ _ () (noteElementPrecision_outcome f.site e)]
  simp

theorem fromNative_element (h : f.shape = e.shape) :
    (t.fromNative depth f).stmts = t.elementFromNative e f.value f.native := by
  unfold fromNative
  rw [h]
  cases e with
  | primitive kind =>
    show ((notePrecision f.site kind) >>= fun _ => Draft.write _).stmts = _
    rw [Draft.stmts_bind_of_ok _ _ () (notePrecision_outcome f.site kind), notePrecision_stmts]
    rfl
  | string kind => rfl
  | enum e => rfl
  | struct s => rfl

theorem fromNative_array (dims : List Nat) (h : f.shape = .array e.shape dims)
    (valid : ValidDims dims) :
    (t.fromNative depth f).stmts =
      .assign f.value (t.layout.arrayAllocation e.valueType dims) ::
        match e.transfer dims with
        | .inline length => t.inlineArrayFromNative depth f e dims length
        | .outOfLine _ => t.outOfLineArrayFromNative depth f e dims := by
  unfold fromNative
  rw [h]
  simp only [Element.classify_shape]
  rw [Draft.stmts_bind_of_ok _ _ e rfl,
    Draft.stmts_bind_of_ok _ _ () (noteElementPrecision_outcome f.site e),
    Draft.stmts_bind_of_ok _ _ () rfl,
    Draft.stmts_bind_of_ok _ _ (e.transfer dims) (arrayTransfer_of_valid f.site e dims valid)]
  cases e.transfer dims <;> simp

theorem fromNative_sequence (maxBound : Nat) (h : f.shape = .sequence e.shape maxBound)
    (bridges : t.layout.Bridges e) :
    (t.fromNative depth f).stmts =
      t.sequenceFromNative depth f e maxBound (listAllocation e.valueType maxBound) := by
  have helement := (t.sequenceElement_ok_iff f e.shape e).mpr ⟨rfl, bridges⟩
  unfold fromNative
  rw [h]
  simp only [helement, t.defaultValue_sequence f.site e maxBound]
  rw [Draft.stmts_bind_of_ok _ _ _ rfl, Draft.stmts_bind_of_ok _ _ e rfl,
    Draft.stmts_bind_of_ok _ _ () (noteElementPrecision_outcome f.site e)]
  simp

theorem initial_element (h : f.shape = e.shape) :
    (t.initial depth f).stmts = [.assign f.value e.initialValue] := by
  unfold initial
  rw [h]
  cases e <;> rfl

theorem initial_array (dims : List Nat) (h : f.shape = .array e.shape dims)
    (valid : ValidDims dims) :
    (t.initial depth f).stmts =
      .assign f.value (t.layout.arrayAllocation e.valueType dims) ::
        if t.layout.needsElementInit e.shape dims then t.fillArray depth f e dims else [] := by
  unfold initial
  rw [h]
  simp only [t.defaultValue_array f.site e dims valid, Element.classify_shape]
  rw [Draft.stmts_bind_of_ok _ _ _ rfl, Draft.stmts_bind_of_ok _ _ () rfl]
  by_cases hinit : t.layout.needsElementInit e.shape dims = true
  · rw [if_pos hinit, if_pos hinit, Draft.stmts_bind_of_ok _ _ e rfl]
    simp
  · rw [if_neg hinit, if_neg hinit]
    simp

theorem initial_sequence (maxBound : Nat) (h : f.shape = .sequence e.shape maxBound) :
    (t.initial depth f).stmts = [.assign f.value (listAllocation e.valueType maxBound)] := by
  unfold initial
  rw [h, t.defaultValue_sequence f.site e maxBound]
  rfl

theorem release_element (h : f.shape = e.shape) :
    (releaseNative depth f).stmts = releaseElement f.native e := by
  unfold releaseNative
  rw [h]
  cases e <;> rfl

theorem release_array (dims : List Nat) (h : f.shape = .array e.shape dims)
    (valid : ValidDims dims) :
    (releaseNative depth f).stmts = releaseArray depth f.native e (e.transfer dims) := by
  unfold releaseNative
  rw [h]
  simp only [Element.classify_shape]
  rw [Draft.stmts_bind_of_ok _ _ e rfl,
    Draft.stmts_bind_of_ok _ _ (e.transfer dims) (arrayTransfer_of_valid f.site e dims valid)]
  simp

theorem release_sequence (maxBound : Nat) (h : f.shape = .sequence e.shape maxBound) :
    (releaseNative depth f).stmts = [resetHandle f.native] := by
  unfold releaseNative
  rw [h]
  rfl

theorem encode_scalar (tag : WireTag) (h : f.shape = e.shape) (htag : e.wireTag? = some tag) :
    (t.encode depth f).stmts = [writeCall tag .scalar [f.value]] := by
  unfold encode
  rw [h]
  cases e <;> cases htag <;> rfl

theorem decode_scalar (tag : WireTag) (h : f.shape = e.shape) (htag : e.wireTag? = some tag) :
    (t.decode depth f).stmts = [readCall f.value tag .scalar []] := by
  unfold decode
  rw [h]
  cases e <;> cases htag <;> rfl

theorem encode_enum (en : EnumType) (h : f.shape = .enum en) :
    (t.encode depth f).stmts = [writeCall .int32 .scalar [.cast (.builtin .int) f.value]] := by
  unfold encode
  rw [h]
  rfl

theorem decode_enum (en : EnumType) (h : f.shape = .enum en) :
    (t.decode depth f).stmts =
      [.assign f.value (enumFromTransfer en (.invoke (.var .reader) (.read .int32 .scalar) []))] := by
  unfold decode
  rw [h]
  rfl

theorem encode_array (tag : WireTag) (dims : List Nat) (h : f.shape = .array e.shape dims)
    (htag : e.wireTag? = some tag) (valid : ValidDims dims) :
    (t.encode depth f).stmts = t.encodeArray depth f tag dims dims.prod := by
  have helement := (wireElement_ok_iff f .array e.shape e tag).mpr ⟨rfl, htag⟩
  unfold encode
  rw [h]
  simp only [helement, checkDims_of_valid f.site dims valid]
  rw [Draft.stmts_bind_of_ok _ _ (e, tag) rfl, Draft.stmts_bind_of_ok _ _ dims.prod rfl]
  simp

theorem decode_array (tag : WireTag) (dims : List Nat) (h : f.shape = .array e.shape dims)
    (htag : e.wireTag? = some tag) (valid : ValidDims dims) :
    (t.decode depth f).stmts = t.decodeArray depth f e tag dims dims.prod := by
  have helement := (wireElement_ok_iff f .array e.shape e tag).mpr ⟨rfl, htag⟩
  unfold decode
  rw [h]
  simp only [helement, checkDims_of_valid f.site dims valid]
  rw [Draft.stmts_bind_of_ok _ _ (e, tag) rfl, Draft.stmts_bind_of_ok _ _ dims.prod rfl]
  simp

theorem encode_sequence (tag : WireTag) (maxBound : Nat) (h : f.shape = .sequence e.shape maxBound)
    (htag : e.wireTag? = some tag) :
    (t.encode depth f).stmts = [writeCall tag .sequence (f.value :: boundArgument maxBound)] := by
  have helement := (wireElement_ok_iff f .sequence e.shape e tag).mpr ⟨rfl, htag⟩
  unfold encode
  rw [h]
  simp only [helement]
  rw [Draft.stmts_bind_of_ok _ _ (e, tag) rfl]
  simp

theorem decode_sequence (tag : WireTag) (maxBound : Nat) (h : f.shape = .sequence e.shape maxBound)
    (htag : e.wireTag? = some tag) :
    (t.decode depth f).stmts = [readCall f.value tag .sequence (boundArgument maxBound)] := by
  have helement := (wireElement_ok_iff f .sequence e.shape e tag).mpr ⟨rfl, htag⟩
  unfold decode
  rw [h]
  simp only [helement]
  rw [Draft.stmts_bind_of_ok _ _ (e, tag) rfl]
  simp

/-- The views of the fields of a struct. -/
def views (s : StructType) : List FieldView :=
  s.fields.map (FieldView.of s.name.qualified)

/-- The methods of a value class, and its properties by their names. -/
structure WritesBodies (t : Target) (codec : Bool) (fields : List FieldView) (c : ValueClass) :
    Prop where
  constructor : c.constructor = bodyOf fields t.initial
  toNative : c.toNative = bodyOf fields t.toNative
  fromNative : c.fromNative = bodyOf fields t.fromNative
  releaseNative : c.releaseNative = freeReleased ++ bodyOf fields InteropGen.releaseNative
  codec : c.codec = if codec then some (bodyOf fields t.encode, bodyOf fields t.decode) else none
  properties : c.properties.map (·.2) = fields.map (·.site.field)

theorem valueClass_bodies (codec : Bool) (s : StructType) (fields : List FieldView)
    (c : ValueClass) (notes : List Diagnostic)
    (h : t.valueClass codec s fields = .ok (c, notes)) : t.WritesBodies codec fields c := by
  unfold valueClass at h
  simp only [except_bind_ok_iff] at h
  obtain ⟨properties, hproperties, ⟨constructor, _⟩, hconstructor, ⟨toNative, _⟩, htoNative,
    ⟨fromNative, _⟩, hfromNative, ⟨release, _⟩, hrelease, h⟩ := h
  have hcodec : ∃ bodies notes', (codec = true → t.codecBodies fields = .ok (bodies, notes')) ∧
      c = {
        name := s.name.short
        transferName := t.transferShortName s.name
        properties
        constructor
        toNative
        fromNative
        releaseNative := freeReleased ++ release
        codec := if codec then some bodies else none } := by
    cases codec with
    | true =>
      simp only [if_true, except_bind_ok_iff] at h
      obtain ⟨⟨bodies, notes'⟩, hbodies, _, hpure, hresult⟩ := h
      cases hpure
      cases hresult
      exact ⟨bodies, notes', fun _ => hbodies, rfl⟩
    | false =>
      cases h
      exact ⟨([], []), [], nofun, rfl⟩
  obtain ⟨bodies, notes', hbodies, rfl⟩ := hcodec
  refine ⟨methodBody_stmts _ _ _ _ hconstructor, methodBody_stmts _ _ _ _ htoNative,
    methodBody_stmts _ _ _ _ hfromNative, ?_, ?_, ?_⟩
  · rw [methodBody_stmts _ _ _ _ hrelease]
  · cases codec with
    | false => rfl
    | true =>
      have hcodec := hbodies rfl
      simp only [codecBodies, except_bind_ok_iff] at hcodec
      obtain ⟨⟨encode, _⟩, hencode, ⟨decode, _⟩, hdecode, hresult⟩ := hcodec
      cases hresult
      simp only [if_true, methodBody_stmts _ _ _ _ hencode, methodBody_stmts _ _ _ _ hdecode]
  · refine except_mapM_map t.property (·.2) (·.site.field) ?_ fields properties hproperties
    intro f p hp
    simp only [property, except_bind_ok_iff] at hp
    obtain ⟨type, _, hresult⟩ := hp
    cases hresult
    rfl

theorem valueClass_properties (codec : Bool) (s : StructType) (fields : List FieldView)
    (c : ValueClass) (notes : List Diagnostic)
    (h : t.valueClass codec s fields = .ok (c, notes)) :
    fields.mapM t.property = .ok c.properties := by
  unfold valueClass at h
  simp only [except_bind_ok_iff] at h
  obtain ⟨properties, hproperties, _, _, _, _, _, _, _, _, h⟩ := h
  cases codec with
  | true =>
    simp only [if_true, except_bind_ok_iff] at h
    obtain ⟨_, _, _, _, hresult⟩ := h
    cases hresult
    exact hproperties
  | false =>
    cases h
    exact hproperties

/-- The code of an accepted struct is its value class and its transfer struct. -/
theorem structCode_parts (wireCodec : Bool) (s : StructType) (code : DeclarationCode)
    (h : t.structCode wireCodec s = .ok code) :
    ∃ c notes transfers,
      t.valueClass (wireCodec && s.isDistinguished) s (views s) = .ok (c, notes) ∧
      t.transferStruct s (views s) = .ok transfers ∧
      code = ⟨⟨some ⟨s.name.enclosing, .valueClass c⟩,
        some ⟨s.name.enclosing, .transferStruct transfers⟩⟩, notes⟩ := by
  unfold structCode at h
  split at h
  · cases h
  · simp only [except_bind_ok_iff] at h
    obtain ⟨⟨c, notes⟩, hclass, transfers, htransfers, hresult⟩ := h
    cases hresult
    exact ⟨c, notes, transfers, hclass, htransfers, rfl⟩

/-- The code of an accepted constant is its literal. -/
theorem constCode_parts {c : ConstDecl} {code : DeclarationCode} (h : constCode c = .ok code) :
    ∃ type literal, constantLiteral? c.type.shape c.value = some (type, literal) ∧
      code = ⟨⟨some ⟨c.name.enclosing, .constant type c.name.short literal⟩, none⟩, []⟩ := by
  simp only [constCode, ConstDecl.literal] at h
  cases hliteral : constantLiteral? c.type.shape c.value with
  | none =>
    rw [hliteral] at h
    cases h
  | some result =>
    rw [hliteral] at h
    cases h
    exact ⟨result.1, result.2, rfl, rfl⟩

end Target

theorem forall_mem_views {s : StructType} {p : FieldView → Prop}
    (h : ∀ f ∈ s.fields, p (.of s.name.qualified f)) : ∀ f ∈ Target.views s, p f := by
  intro view hview
  obtain ⟨f, hf, rfl⟩ := List.mem_map.mp hview
  exact h f hf

end InteropGen

import InteropGen.Proofs.Fields
import InteropGen.Generator.Basic

/-!
# Which structs are accepted

A struct passes through seven stages, each with rules of its own. Taken together they reject by
four conditions on every field (`TypeNode.Accepted`), and by nothing else.

* `TypeNode.accepted_iff` — the conditions as they are read off the declared type are the
  conditions on shapes that the stages check;
* `Target.structCode_ok_iff` — one layout;
* `Generator.emit_struct_ok_iff` — all configured layouts.
-/

set_option autoImplicit false

namespace InteropGen

open CSharp

/-- The type leads to the union through typedefs, array elements and sequence elements. Named
structs are not entered. -/
inductive TypeNode.LeadsTo (u : UnionType) : TypeNode → Prop
  | here : LeadsTo u (.union u)
  | alias (name : ScopedName) (target : TypeNode) : LeadsTo u target → LeadsTo u (.alias ⟨name, target⟩)
  | fixedArray (element : TypeNode) (dims : List Nat) :
      LeadsTo u element → LeadsTo u (.fixedArray element dims)
  | sequence (element : TypeNode) (maxBound : Nat) :
      LeadsTo u element → LeadsTo u (.sequence element maxBound)

/-- Shapes that a collection may hold. -/
def Shape.IsElement : Shape → Prop
  | .primitive _ | .string _ | .enum _ | .struct _ => True
  | _ => False

theorem Shape.isElement_iff (shape : Shape) : shape.IsElement ↔ ∃ e : Element, shape = e.shape := by
  constructor
  · intro h
    cases shape with
    | primitive kind => exact ⟨.primitive kind, rfl⟩
    | string kind => exact ⟨.string kind, rfl⟩
    | enum e => exact ⟨.enum e, rfl⟩
    | struct s => exact ⟨.struct s, rfl⟩
    | _ => exact absurd h id
  · intro h
    obtain ⟨element, rfl⟩ := h
    cases element <;> trivial

theorem TypeNode.findUnion_eq_some_iff (u : UnionType) :
    (node : TypeNode) → (node.findUnion = some u ↔ node.LeadsTo u)
  | .primitive kind => ⟨nofun, nofun⟩
  | .narrowString => ⟨nofun, nofun⟩
  | .wideString => ⟨nofun, nofun⟩
  | .enum e => ⟨nofun, nofun⟩
  | .struct s => ⟨nofun, nofun⟩
  | .union v => by
    constructor
    · intro h
      cases h
      exact .here
    · intro h
      cases h
      rfl
  | .alias ⟨name, target⟩ => by
    have ih := TypeNode.findUnion_eq_some_iff u target
    constructor
    · intro h
      exact .alias name target (ih.mp h)
    · intro h
      cases h
      rename_i h
      exact ih.mpr h
  | .fixedArray element dims => by
    have ih := TypeNode.findUnion_eq_some_iff u element
    constructor
    · intro h
      exact .fixedArray element dims (ih.mp h)
    · intro h
      cases h with
      | fixedArray _ _ h => exact ih.mpr h
  | .sequence element maxBound => by
    have ih := TypeNode.findUnion_eq_some_iff u element
    constructor
    · intro h
      exact .sequence element maxBound (ih.mp h)
    · intro h
      cases h with
      | sequence _ _ h => exact ih.mpr h

/-- The type of a field is accepted on a layout; `codec` tells whether its struct has a wire
codec. -/
structure TypeNode.Accepted (type : TypeNode) (layout : Layout) (codec : Bool) : Prop where
  no_union : ∀ u, ¬ type.LeadsTo u
  array : ∀ element dims, type.shape = .array element dims →
    dims ≠ [] ∧ (∀ d ∈ dims, 0 < d) ∧ dims.prod ≤ 2 ^ 31 - 1 ∧ element.IsElement
  sequence : ∀ element maxBound, type.shape = .sequence element maxBound →
    element.IsElement ∧ (layout = .rectangular → ∀ e, element ≠ .enum e)
  codec_struct : codec = true → ∀ s, type.shape ≠ .struct s
  codec_array : codec = true → ∀ element dims, type.shape = .array element dims → element.IsFlat
  codec_sequence : codec = true →
    ∀ element maxBound, type.shape = .sequence element maxBound → element.IsFlat

theorem Layout.bridges_iff (layout : Layout) (element : Element) :
    layout.Bridges element ↔ (layout = .rectangular → ∀ e, element.shape ≠ .enum e) := by
  cases element <;> simp [Layout.Bridges, Element.shape]

theorem Shape.Transferable.findUnion_eq_none {layout : Layout} {shape : Shape}
    (h : shape.Transferable layout) : shape.findUnion = none := by
  cases shape with
  | union u => exact absurd h id
  | array element dims =>
    obtain ⟨⟨e, rfl⟩, _⟩ := h
    cases e <;> rfl
  | sequence element maxBound =>
    obtain ⟨e, rfl, _⟩ := h
    cases e <;> rfl
  | primitive kind => rfl
  | string kind => rfl
  | enum e => rfl
  | struct s => rfl

theorem TypeNode.accepted_iff (type : TypeNode) (layout : Layout) (codec : Bool) :
    type.Accepted layout codec ↔
      type.shape.Transferable layout ∧ (codec = true → type.shape.Encodable) := by
  constructor
  · intro accepted
    have hunion : ∀ u, type.shape ≠ .union u := by
      intro u hshape
      have hfind : type.findUnion = some u := by
        rw [← type.findUnion_shape, hshape]
        rfl
      exact accepted.no_union u ((TypeNode.findUnion_eq_some_iff u type).mp hfind)
    constructor
    · cases hshape : type.shape with
      | union u => exact absurd hshape (hunion u)
      | array element dims =>
        obtain ⟨hnonempty, hpositive, hcount, helement⟩ := accepted.array element dims hshape
        exact ⟨(element.isElement_iff).mp helement, hnonempty, hpositive, by omega⟩
      | sequence element maxBound =>
        obtain ⟨helement, henum⟩ := accepted.sequence element maxBound hshape
        obtain ⟨e, rfl⟩ := (element.isElement_iff).mp helement
        exact ⟨e, rfl, (layout.bridges_iff e).mpr henum⟩
      | _ => trivial
    · intro hcodec
      cases hshape : type.shape with
      | union u => exact absurd hshape (hunion u)
      | struct s => exact absurd hshape (accepted.codec_struct hcodec s)
      | array element dims =>
        obtain ⟨hnonempty, hpositive, hcount, _⟩ := accepted.array element dims hshape
        exact ⟨accepted.codec_array hcodec element dims hshape, hnonempty, hpositive, by omega⟩
      | sequence element maxBound => exact accepted.codec_sequence hcodec element maxBound hshape
      | _ => trivial
  · intro h
    obtain ⟨transferable, encodable⟩ := h
    refine ⟨?_, ?_, ?_, ?_, ?_, ?_⟩
    · intro u hleads
      have hsome := (TypeNode.findUnion_eq_some_iff u type).mpr hleads
      rw [← type.findUnion_shape, transferable.findUnion_eq_none] at hsome
      cases hsome
    · intro element dims hshape
      rw [hshape] at transferable
      obtain ⟨helement, valid⟩ := transferable
      have hcount := valid.count_lt
      exact ⟨valid.nonempty, valid.positive, by omega, (element.isElement_iff).mpr helement⟩
    · intro element maxBound hshape
      rw [hshape] at transferable
      obtain ⟨e, rfl, bridges⟩ := transferable
      exact ⟨(e.shape.isElement_iff).mpr ⟨e, rfl⟩, (layout.bridges_iff e).mp bridges⟩
    · intro hcodec s hshape
      have hencodable := encodable hcodec
      rw [hshape] at hencodable
      exact hencodable
    · intro hcodec element dims hshape
      have hencodable := encodable hcodec
      rw [hshape] at hencodable
      exact hencodable.1
    · intro hcodec element maxBound hshape
      have hencodable := encodable hcodec
      rw [hshape] at hencodable
      exact hencodable

namespace Target

variable (t : Target)

theorem codecBodies_ok_iff (fields : List FieldView) :
    (∃ result, t.codecBodies fields = .ok result) ↔ ∀ f ∈ fields, f.shape.Encodable := by
  unfold codecBodies
  simp only [except_bind_ok_iff]
  constructor
  · intro h
    obtain ⟨_, encoded, hencoded, _⟩ := h
    have hall := (methodBody_ok_iff fields t.encode).mp ⟨encoded, hencoded⟩
    intro f hf
    exact (t.encode_finishes_iff 0 f).mp (hall f hf)
  · intro h
    obtain ⟨encoded, hencoded⟩ := (methodBody_ok_iff fields t.encode).mpr fun f hf =>
      (t.encode_finishes_iff 0 f).mpr (h f hf)
    obtain ⟨decoded, hdecoded⟩ := (methodBody_ok_iff fields t.decode).mpr fun f hf =>
      (t.decode_finishes_iff 0 f).mpr (h f hf)
    exact ⟨_, encoded, hencoded, decoded, hdecoded, rfl⟩

theorem valueClass_ok_iff (codec : Bool) (s : StructType) (fields : List FieldView) :
    (∃ result, t.valueClass codec s fields = .ok result) ↔
      ∀ f ∈ fields, f.shape.Transferable t.layout ∧ (codec = true → f.shape.Encodable) := by
  unfold valueClass
  simp only [except_bind_ok_iff]
  constructor
  · intro h
    obtain ⟨_, _, _, _, _, toNative, htoNative, _, _, _, _, hrest⟩ := h
    have hall := (methodBody_ok_iff fields t.toNative).mp ⟨toNative, htoNative⟩
    intro f hf
    refine ⟨(t.toNative_finishes_iff 0 f).mp (hall f hf), ?_⟩
    intro hcodec
    rw [if_pos hcodec] at hrest
    simp only [except_bind_ok_iff] at hrest
    obtain ⟨bodies, hbodies, _⟩ := hrest
    exact (t.codecBodies_ok_iff fields).mp ⟨bodies, hbodies⟩ f hf
  · intro h
    have htransfer : ∀ f ∈ fields, f.shape.Transferable t.layout := fun f hf => (h f hf).1
    have hproperties : ∀ f ∈ fields, ∃ property, t.property f = .ok property := by
      intro f hf
      obtain ⟨type, htype⟩ := t.valueType_ok f.site f.shape (htransfer f hf)
      exact ⟨(type, f.site.field), by simp only [property, htype]; rfl⟩
    obtain ⟨properties, hproperties⟩ := (except_mapM_ok_iff t.property fields).mpr hproperties
    obtain ⟨initial, hinitial⟩ := (methodBody_ok_iff fields t.initial).mpr fun f hf =>
      t.initial_finishes 0 f (htransfer f hf)
    obtain ⟨toNative, htoNative⟩ := (methodBody_ok_iff fields t.toNative).mpr fun f hf =>
      (t.toNative_finishes_iff 0 f).mpr (htransfer f hf)
    obtain ⟨fromNative, hfromNative⟩ := (methodBody_ok_iff fields t.fromNative).mpr fun f hf =>
      (t.fromNative_finishes_iff 0 f).mpr (htransfer f hf)
    obtain ⟨release, hrelease⟩ := (methodBody_ok_iff fields releaseNative).mpr fun f hf =>
      t.releaseNative_finishes 0 f (htransfer f hf)
    cases codec with
    | false =>
      exact ⟨_, properties, hproperties, initial, hinitial, toNative, htoNative, fromNative,
        hfromNative, release, hrelease, rfl⟩
    | true =>
      obtain ⟨bodies, hbodies⟩ := (t.codecBodies_ok_iff fields).mpr fun f hf => (h f hf).2 rfl
      simp only [if_true, except_bind_ok_iff]
      exact ⟨_, properties, hproperties, initial, hinitial, toNative, htoNative, fromNative,
        hfromNative, release, hrelease, bodies, hbodies, _, rfl, rfl⟩

theorem transferStruct_ok (s : StructType) (fields : List FieldView)
    (h : ∀ f ∈ fields, f.shape.Transferable t.layout) :
    ∃ result, t.transferStruct s fields = .ok result := by
  have hfields : ∀ f ∈ fields, ∃ field, t.transferField f = .ok field := by
    intro f hf
    obtain ⟨marshalAs, hmarshalAs⟩ := t.transferAttribute_ok f (h f hf)
    obtain ⟨type, htype⟩ := t.transferType_ok f (h f hf)
    exact ⟨⟨marshalAs, type, f.site.field⟩, by simp only [transferField, hmarshalAs, htype]; rfl⟩
  obtain ⟨results, hresults⟩ := (except_mapM_ok_iff t.transferField fields).mpr hfields
  exact ⟨⟨t.transferShortName s.name, results⟩, by simp only [transferStruct, hresults]; rfl⟩

/-- On one layout a struct is accepted if all its fields are. -/
theorem structCode_ok_iff (wireCodec : Bool) (s : StructType) :
    (∃ code, t.structCode wireCodec s = .ok code) ↔
      ∀ f ∈ s.fields, f.type.Accepted t.layout (wireCodec && s.isDistinguished) := by
  simp only [TypeNode.accepted_iff]
  have hviews : (∀ f ∈ s.fields, f.type.shape.Transferable t.layout ∧
        ((wireCodec && s.isDistinguished) = true → f.type.shape.Encodable)) ↔
      ∀ f ∈ s.fields.map (FieldView.of s.name.qualified), f.shape.Transferable t.layout ∧
        ((wireCodec && s.isDistinguished) = true → f.shape.Encodable) := by
    simp [FieldView.of]
  rw [hviews, ← t.valueClass_ok_iff (wireCodec && s.isDistinguished) s]
  unfold structCode
  constructor
  · intro h
    obtain ⟨code, hcode⟩ := h
    split at hcode
    · cases hcode
    · simp only [except_bind_ok_iff] at hcode
      obtain ⟨result, hresult, _⟩ := hcode
      exact ⟨result, hresult⟩
  · intro h
    have hall := (t.valueClass_ok_iff _ s _).mp h
    obtain ⟨result, hresult⟩ := h
    obtain ⟨transfers, htransfers⟩ := t.transferStruct_ok s _ fun f hf => (hall f hf).1
    have hunion : s.fields.findSome? (·.type.findUnion) = none := by
      rw [List.findSome?_eq_none_iff]
      intro f hf
      rw [← f.type.findUnion_shape]
      exact (hviews.mpr hall f hf).1.findUnion_eq_none
    simp only [hunion, hresult, htransfers]
    exact ⟨_, rfl⟩

end Target

theorem except_foldlM_ok_iff {ε α β : Type} (step : β → α → Except ε β) (accepts : α → Prop)
    (hstep : ∀ acc item, (∃ next, step acc item = .ok next) ↔ accepts item)
    (items : List α) (start : β) :
    (∃ result, items.foldlM step start = .ok result) ↔ ∀ item ∈ items, accepts item := by
  induction items generalizing start with
  | nil => simp [pure, Except.pure]
  | cons item rest ih =>
    simp only [List.foldlM_cons, except_bind_ok_iff, List.forall_mem_cons]
    constructor
    · intro h
      obtain ⟨result, next, hnext, hresult⟩ := h
      exact ⟨(hstep start item).mp ⟨next, hnext⟩, (ih next).mp ⟨result, hresult⟩⟩
    · intro h
      obtain ⟨next, hnext⟩ := (hstep start item).mpr h.1
      obtain ⟨result, hresult⟩ := (ih next).mpr h.2
      exact ⟨result, next, hnext, hresult⟩

/-- Valid settings name a target. -/
theorem Settings.targets_ne_nil {s : Settings} (h : s.check = .ok ()) : s.targets ≠ [] := by
  intro hnone
  simp [check, hnone] at h

/-- A shape without what stands inside the structs that it names. -/
def Shape.outline : Shape → Shape
  | .struct s => .struct { s with fields := [], category := none }
  | .array element dims => .array element.outline dims
  | .sequence element maxBound => .sequence element.outline maxBound
  | shape => shape

theorem Shape.isElement_outline (shape : Shape) : shape.outline.IsElement ↔ shape.IsElement := by
  cases shape <;> exact Iff.rfl

theorem Shape.outline_eq_enum_iff (shape : Shape) (e : EnumType) :
    shape.outline = .enum e ↔ shape = .enum e := by
  cases shape <;> simp [Shape.outline]

theorem Shape.sequence_transferable_iff (layout : Layout) (element : Shape) (maxBound : Nat) :
    (Shape.sequence element maxBound).Transferable layout ↔
      element.IsElement ∧ (layout = .rectangular → ∀ e, element ≠ .enum e) := by
  constructor
  · intro h
    obtain ⟨e, rfl, bridges⟩ := h
    exact ⟨(e.shape.isElement_iff).mpr ⟨e, rfl⟩, (layout.bridges_iff e).mp bridges⟩
  · intro h
    obtain ⟨e, rfl⟩ := (element.isElement_iff).mp h.1
    exact ⟨e, rfl, (layout.bridges_iff e).mpr h.2⟩

theorem Shape.transferable_outline (shape : Shape) (layout : Layout) :
    shape.outline.Transferable layout ↔ shape.Transferable layout := by
  cases shape with
  | array element dims =>
    show (∃ e : Element, element.outline = e.shape) ∧ ValidDims dims ↔
      (∃ e : Element, element = e.shape) ∧ ValidDims dims
    rw [← Shape.isElement_iff, ← Shape.isElement_iff, Shape.isElement_outline]
  | sequence element maxBound =>
    simp only [Shape.outline, Shape.sequence_transferable_iff, Shape.isElement_outline, ne_eq,
      Shape.outline_eq_enum_iff]
  | _ => exact Iff.rfl

theorem Shape.encodable_outline (shape : Shape) : shape.outline.Encodable ↔ shape.Encodable := by
  cases shape with
  | array element dims => cases element <;> exact Iff.rfl
  | sequence element maxBound => cases element <;> exact Iff.rfl
  | _ => exact Iff.rfl

namespace Generator

variable (g : Generator)

theorem emitLayout_ok_iff (s : StructType) (out : DeclarationOutput) (layout : Layout) :
    (∃ next, g.emitLayout (.struct s) out layout = .ok next) ↔
      ∀ f ∈ s.fields, f.type.Accepted layout (g.settings.wireCodec && s.isDistinguished) := by
  rw [show layout = (g.target layout).layout from rfl, ← Target.structCode_ok_iff]
  simp only [emitLayout, except_bind_ok_iff]
  constructor
  · intro h
    obtain ⟨_, code, hcode, _⟩ := h
    exact ⟨code, hcode⟩
  · intro h
    obtain ⟨code, hcode⟩ := h
    exact ⟨_, code, hcode, rfl⟩

theorem emit_struct_ok_iff (s : StructType) :
    (∃ out, g.emit (.struct s) = .ok out) ↔
      ∀ layout ∈ g.settings.targets, ∀ f ∈ s.fields,
        f.type.Accepted layout (g.settings.wireCodec && s.isDistinguished) :=
  except_foldlM_ok_iff _ _ (fun out layout => g.emitLayout_ok_iff s out layout) _ _

/-- A struct is accepted exactly if every field is accepted on every configured layout. Beyond the
layouts, the codec setting and whether the struct has a category, acceptance depends only on the
outlines of the field types: not on the platform, the indentation, the suffixes, the templates or
what the structs that it refers to contain. Nothing is asked of the settings. -/
theorem struct_acceptance_exact (s : StructType) :
    ((∃ out, g.emit (.struct s) = .ok out) ↔
      ∀ layout ∈ g.settings.targets, ∀ f ∈ s.fields,
        f.type.Accepted layout (g.settings.wireCodec && s.isDistinguished)) ∧
    ∀ (g' : Generator) (s' : StructType),
      g'.settings.targets = g.settings.targets →
      g'.settings.wireCodec = g.settings.wireCodec →
      s'.isDistinguished = s.isDistinguished →
      s'.fields.map (·.type.shape.outline) = s.fields.map (·.type.shape.outline) →
      ((∃ out, g'.emit (.struct s') = .ok out) ↔ ∃ out, g.emit (.struct s) = .ok out) := by
  refine ⟨g.emit_struct_ok_iff s, ?_⟩
  intro g' s' htargets hcodec hdistinguished houtlines
  have hview : ∀ (r : StructType) (layout : Layout) (codec : Bool),
      (∀ f ∈ r.fields, f.type.Accepted layout codec) ↔
        ∀ outline ∈ r.fields.map (·.type.shape.outline),
          outline.Transferable layout ∧ (codec = true → outline.Encodable) := by
    intro r layout codec
    simp only [List.forall_mem_map, TypeNode.accepted_iff, Shape.transferable_outline,
      Shape.encodable_outline]
  simp only [emit_struct_ok_iff, hview, htargets, hcodec, hdistinguished, houtlines]

end Generator

end InteropGen

import InteropGen.Proofs.Rejection.Reported
import InteropGen.Proofs.Targets.Emission

/-!
# What the platform decides

Two runs of the generator that differ in the platform only. The platform decides how wide text
crosses the native boundary; it is not asked about anything else.

* `Target.agreesOn_withPlatform` — what a conversion asks about an element that is not wide;
* `Target.writtenClass_withPlatform` — the two conversions are all that differs in a value class;
* `Generator.platform_confined` — errors, diagnostics and texts.
-/

set_option autoImplicit false

namespace InteropGen

open CSharp

/-- Wide characters and wide strings. -/
def Element.IsWide (e : Element) : Prop :=
  e = .primitive .wchar ∨ e = .string .wide

/-- Wide characters, wide strings, and arrays and sequences of them. -/
def Shape.IsWide (shape : Shape) : Prop :=
  shape.item = .primitive .wchar ∨ shape.item = .string .wide

theorem Shape.isWide_iff {shape : Shape} {e : Element} (h : shape.item = e.shape) :
    shape.IsWide ↔ e.IsWide := by
  unfold Shape.IsWide Element.IsWide
  rw [h]
  cases e <;> simp [Element.shape]

/-- A field that is not wide has an element that is not. -/
theorem Shape.Transferable.narrow_cases {layout : Layout} {shape : Shape}
    (h : shape.Transferable layout) (hnarrow : ¬ shape.IsWide) :
    (∃ e : Element, ¬ e.IsWide ∧ shape = e.shape) ∨
    (∃ (e : Element) (dims : List Nat), ¬ e.IsWide ∧ shape = .array e.shape dims ∧ ValidDims dims) ∨
    (∃ (e : Element) (maxBound : Nat), ¬ e.IsWide ∧ shape = .sequence e.shape maxBound ∧
      layout.Bridges e) := by
  obtain ⟨e, rfl⟩ | ⟨e, dims, rfl, valid⟩ | ⟨e, maxBound, rfl, bridges⟩ := h.cases
  · exact .inl ⟨e, mt (Shape.isWide_iff (Shape.item_element e)).mpr hnarrow, rfl⟩
  · exact .inr (.inl ⟨e, dims, mt (Shape.isWide_iff rfl).mpr hnarrow, rfl, valid⟩)
  · exact .inr (.inr ⟨e, maxBound, mt (Shape.isWide_iff rfl).mpr hnarrow, rfl, bridges⟩)

/-- What the conversions and the transfer struct ask about an element has the same answer. -/
structure Target.AgreesOn (t t' : Target) (e : Element) : Prop where
  transferType : t'.elementTransferType e = t.elementTransferType e
  unmanaged : ∀ kind, e = .primitive kind →
    t'.platform.unmanagedType? kind = t.platform.unmanagedType? kind
  direct : t'.platform.copiesDirectly e = t.platform.copiesDirectly e
  slot : t'.slot e = t.slot e
  toNative : t'.elementToNative e = t.elementToNative e
  fromNative : t'.elementFromNative e = t.elementFromNative e
  store : t'.storeInSlot e = t.storeInSlot e
  load : t'.loadFromSlot e = t.loadFromSlot e

namespace Target

/-- The target with another platform. -/
def withPlatform (t : Target) (platform : Platform) : Target :=
  { t with platform }

variable (t : Target) (platform : Platform)

theorem agreesOn_withPlatform (e : Element) (h : ¬ e.IsWide) :
    t.AgreesOn (t.withPlatform platform) e := by
  cases e with
  | primitive kind =>
    cases kind with
    | wchar => exact absurd (.inl rfl) h
    | _ => exact ⟨rfl, fun _ hkind => by cases hkind; rfl, rfl, rfl, rfl, rfl, rfl, rfl⟩
  | string kind =>
    cases kind with
    | wide => exact absurd (.inr rfl) h
    | narrow => exact ⟨rfl, nofun, rfl, rfl, rfl, rfl, rfl, rfl⟩
  | enum e => exact ⟨rfl, nofun, rfl, rfl, rfl, rfl, rfl, rfl⟩
  | struct s => exact ⟨rfl, nofun, rfl, rfl, rfl, rfl, rfl, rfl⟩

theorem valueType_withPlatform (site : Site) (shape : Shape) :
    (t.withPlatform platform).valueType site shape = t.valueType site shape := by
  induction shape with
  | array element dims ih =>
    simp only [valueType, ih]
    rfl
  | sequence element maxBound ih => simp only [valueType, ih]
  | _ => rfl

theorem defaultValue_withPlatform (site : Site) (shape : Shape) :
    (t.withPlatform platform).defaultValue site shape = t.defaultValue site shape := by
  cases shape with
  | array element dims =>
    simp only [defaultValue, valueType_withPlatform]
    rfl
  | sequence element maxBound => simp only [defaultValue, valueType_withPlatform]
  | _ => rfl

theorem property_withPlatform : (t.withPlatform platform).property = t.property := by
  funext f
  simp only [property, valueType_withPlatform]

theorem initial_withPlatform : (t.withPlatform platform).initial = t.initial := by
  funext depth f
  simp only [initial, defaultValue_withPlatform]
  rfl

theorem encode_withPlatform : (t.withPlatform platform).encode = t.encode := rfl

theorem decode_withPlatform : (t.withPlatform platform).decode = t.decode := rfl

/-- The two conversions are all that differs in a value class. -/
theorem writtenClass_withPlatform (codec : Bool) (s : StructType) (fields : List FieldView)
    (properties : List (Ty × String)) :
    (t.withPlatform platform).writtenClass codec s fields properties =
      { t.writtenClass codec s fields properties with
        toNative := bodyOf fields (t.withPlatform platform).toNative
        fromNative := bodyOf fields (t.withPlatform platform).fromNative } := by
  simp only [writtenClass, initial_withPlatform, encode_withPlatform, decode_withPlatform]
  rfl

section
variable (depth : Nat) (f : FieldView)

theorem toNative_withPlatform (h : f.shape.Transferable t.layout) (hnarrow : ¬ f.shape.IsWide) :
    ((t.withPlatform platform).toNative depth f).stmts = (t.toNative depth f).stmts := by
  obtain ⟨e, he, hshape⟩ | ⟨e, dims, he, hshape, valid⟩ | ⟨e, maxBound, he, hshape, bridges⟩ :=
    h.narrow_cases hnarrow
  · have agrees := t.agreesOn_withPlatform platform e he
    rw [toNative_element _ depth f e hshape, toNative_element _ depth f e hshape, agrees.toNative]
  · have agrees := t.agreesOn_withPlatform platform e he
    simp only [toNative_array _ depth f e dims hshape valid, inlineArrayToNative,
      outOfLineArrayToNative, agrees.transferType, agrees.direct, agrees.toNative, agrees.slot,
      agrees.store]
    rfl
  · have agrees := t.agreesOn_withPlatform platform e he
    rw [t.toNative_sequence depth f e maxBound hshape bridges,
      (t.withPlatform platform).toNative_sequence depth f e maxBound hshape bridges]
    simp only [sequenceToNative, agrees.slot, agrees.store]

theorem fromNative_withPlatform (h : f.shape.Transferable t.layout) (hnarrow : ¬ f.shape.IsWide) :
    ((t.withPlatform platform).fromNative depth f).stmts = (t.fromNative depth f).stmts := by
  obtain ⟨e, he, hshape⟩ | ⟨e, dims, he, hshape, valid⟩ | ⟨e, maxBound, he, hshape, bridges⟩ :=
    h.narrow_cases hnarrow
  · have agrees := t.agreesOn_withPlatform platform e he
    rw [fromNative_element _ depth f e hshape, fromNative_element _ depth f e hshape,
      agrees.fromNative]
  · have agrees := t.agreesOn_withPlatform platform e he
    simp only [fromNative_array _ depth f e dims hshape valid, inlineArrayFromNative,
      outOfLineArrayFromNative, agrees.direct, agrees.fromNative, agrees.slot, agrees.load]
    rfl
  · have agrees := t.agreesOn_withPlatform platform e he
    rw [t.fromNative_sequence depth f e maxBound hshape bridges,
      (t.withPlatform platform).fromNative_sequence depth f e maxBound hshape bridges]
    simp only [sequenceFromNative, agrees.slot, agrees.load]

theorem transferField_withPlatform (h : f.shape.Transferable t.layout)
    (hnarrow : ¬ f.shape.IsWide) : (t.withPlatform platform).transferField f = t.transferField f := by
  unfold transferField transferAttribute transferType
  obtain ⟨e, he, hshape⟩ | ⟨e, dims, he, hshape, valid⟩ | ⟨e, maxBound, he, hshape, bridges⟩ :=
    h.narrow_cases hnarrow
  · rw [hshape]
    cases e with
    | primitive kind =>
      have agrees := t.agreesOn_withPlatform platform (.primitive kind) he
      have htype : Ty.builtin ((t.withPlatform platform).platform.primitiveType kind) =
          .builtin (t.platform.primitiveType kind) := agrees.transferType
      simp only [Element.shape, agrees.unmanaged kind rfl, htype]
    | _ => rfl
  · have agrees := t.agreesOn_withPlatform platform e he
    rw [hshape]
    simp only [Element.classify_shape, arrayTransfer_of_valid f.site e dims valid, bind,
      Except.bind, agrees.transferType]
    cases e with
    | primitive kind => simp only [agrees.unmanaged kind rfl]
    | _ => rfl
  · rw [hshape]

end

/-- Without wide text nothing differs. -/
theorem bodies_withPlatform (fields : List FieldView)
    (h : ∀ f ∈ fields, f.shape.Transferable t.layout) (hnarrow : ∀ f ∈ fields, ¬ f.shape.IsWide) :
    bodyOf fields (t.withPlatform platform).toNative = bodyOf fields t.toNative ∧
      bodyOf fields (t.withPlatform platform).fromNative = bodyOf fields t.fromNative ∧
      fields.mapM (t.withPlatform platform).transferField = fields.mapM t.transferField :=
  ⟨List.flatMap_congr fun f hf => t.toNative_withPlatform platform 0 f (h f hf) (hnarrow f hf),
    List.flatMap_congr fun f hf => t.fromNative_withPlatform platform 0 f (h f hf) (hnarrow f hf),
    except_mapM_congr fun f hf => t.transferField_withPlatform platform f (h f hf) (hnarrow f hf)⟩

theorem failure?_withPlatform (wireCodec : Bool) (d : Declaration) :
    failure? ((t.withPlatform platform).declarationCode wireCodec d) =
      failure? (t.declarationCode wireCodec d) := by
  cases d with
  | struct s =>
    exact ((t.withPlatform platform).failure?_structCode wireCodec s).trans
      (t.failure?_structCode wireCodec s).symm
  | _ => rfl

/-- What two platforms make of an accepted struct. -/
theorem structCode_withPlatform (wireCodec : Bool) (s : StructType) (code code' : DeclarationCode)
    (h : t.structCode wireCodec s = .ok code)
    (h' : (t.withPlatform platform).structCode wireCodec s = .ok code') :
    ∃ c c' transfers transfers' notes notes',
      code = ⟨⟨some ⟨s.name.enclosing, .valueClass c⟩,
        some ⟨s.name.enclosing, .transferStruct transfers⟩⟩, notes⟩ ∧
      code' = ⟨⟨some ⟨s.name.enclosing, .valueClass c'⟩,
        some ⟨s.name.enclosing, .transferStruct transfers'⟩⟩, notes'⟩ ∧
      c' = { c with toNative := c'.toNative, fromNative := c'.fromNative } ∧
      ((∀ f ∈ s.fields, ¬ f.type.shape.IsWide) → c' = c ∧ transfers' = transfers) := by
  obtain ⟨c, notes, transfers, hclass, htransfers, rfl⟩ := t.structCode_parts wireCodec s code h
  obtain ⟨c', notes', transfers', hclass', htransfers', rfl⟩ :=
    (t.withPlatform platform).structCode_parts wireCodec s code' h'
  have htransfer : ∀ f ∈ views s, f.shape.Transferable t.layout := fun f hf =>
    ((t.valueClass_ok_iff _ s (views s)).mp ⟨_, hclass⟩ f hf).1
  obtain ⟨hproperties, hc⟩ := t.valueClass_written _ s (views s) c notes hclass
  obtain ⟨hproperties', hc'⟩ :=
    (t.withPlatform platform).valueClass_written _ s (views s) c' notes' hclass'
  rw [property_withPlatform, hproperties] at hproperties'
  rw [← Except.ok.inj hproperties', writtenClass_withPlatform] at hc'
  refine ⟨c, c', transfers, transfers', notes, notes', rfl, rfl, ?_, fun hnarrow => ?_⟩
  · rw [hc', ← hc]
  · obtain ⟨hto, hfrom, hfields⟩ :=
      t.bodies_withPlatform platform (views s) htransfer (forall_mem_views hnarrow)
    constructor
    · rw [hc', hto, hfrom, hc]
      rfl
    · have hsame : (t.withPlatform platform).transferStruct s (views s) =
          t.transferStruct s (views s) := by
        simp only [transferStruct, hfields]
        rfl
      rw [hsame, htransfers] at htransfers'
      exact (Except.ok.inj htransfers').symm

end Target

/-- A map is what it holds for each layout. -/
theorem LayoutMap.ext_get? {α : Type} {m m' : LayoutMap α}
    (h : ∀ layout, m'.get? layout = m.get? layout) : m' = m := by
  obtain ⟨rectangular, jagged⟩ := m
  obtain ⟨rectangular', jagged'⟩ := m'
  have hrectangular : rectangular' = rectangular := h .rectangular
  have hjagged : jagged' = jagged := h .jagged
  rw [hrectangular, hjagged]

namespace Generator

variable (g : Generator) (platform : Platform)

/-- The generator with another platform. -/
def withPlatform : Generator :=
  { g with settings := { g.settings with platform } }

theorem failure?_emit_withPlatform (d : Declaration) :
    failure? ((g.withPlatform platform).emit d) = failure? (g.emit d) := by
  rw [failure?_emit, failure?_emit]
  exact findSome?_congr fun layout _ =>
    (g.target layout).failure?_withPlatform platform g.settings.wireCodec d

/-- The texts of a struct for a layout on two platforms. -/
theorem texts_withPlatform {s : StructType} {out out' : DeclarationOutput}
    (h : g.emit (.struct s) = .ok out) (h' : (g.withPlatform platform).emit (.struct s) = .ok out')
    {layout : Layout} (hlayout : layout ∈ g.settings.targets) :
    ∃ c c' transfers transfers',
      out.targets.get? layout = some (g.structText s c transfers) ∧
      out'.targets.get? layout = some (g.structText s c' transfers') ∧
      c' = { c with toNative := c'.toNative, fromNative := c'.fromNative } ∧
      ((∀ f ∈ s.fields, ¬ f.type.shape.IsWide) → c' = c ∧ transfers' = transfers) := by
  obtain ⟨code, hcode, htext⟩ := (g.emitted h).text layout hlayout
  obtain ⟨code', hcode', htext'⟩ := ((g.withPlatform platform).emitted h').text layout hlayout
  obtain ⟨c, c', transfers, transfers', notes, notes', rfl, rfl, hconversions, hnarrow⟩ :=
    (g.target layout).structCode_withPlatform platform _ s code code' hcode hcode'
  exact ⟨c, c', transfers, transfers', htext, htext', hconversions, hnarrow⟩

/-- Without wide text the texts for a layout are the same. -/
theorem get?_withPlatform {d : Declaration} {out out' : DeclarationOutput}
    (h : g.emit d = .ok out) (h' : (g.withPlatform platform).emit d = .ok out')
    (hnarrow : ∀ s, d = .struct s → ∀ f ∈ s.fields, ¬ f.type.shape.IsWide)
    {layout : Layout} (hlayout : layout ∈ g.settings.targets) :
    out'.targets.get? layout = out.targets.get? layout := by
  cases d with
  | struct s =>
    obtain ⟨c, c', transfers, transfers', htext, htext', _, hsame⟩ :=
      g.texts_withPlatform platform h h' hlayout
    obtain ⟨rfl, rfl⟩ := hsame (hnarrow s rfl)
    rw [htext, htext']
  | _ =>
    obtain ⟨code, hcode, htext⟩ := (g.emitted h).text layout hlayout
    obtain ⟨code', hcode', htext'⟩ := ((g.withPlatform platform).emitted h').text layout hlayout
    have hsame : Except.ok code' = (.ok code : Except GenError DeclarationCode) :=
      hcode'.symm.trans hcode
    cases hsame
    exact htext'.trans htext.symm

/-- **What the platform decides.** With another platform a declaration fails with the same error or
not at all, and its diagnostics are the same. Of the class of a struct only the two conversions may
differ; so may the transfer struct. Without wide text in any field the whole output is the same. -/
theorem platform_confined (d : Declaration) :
    (∀ e, (g.withPlatform platform).emit d = .error e ↔ g.emit d = .error e) ∧
    ∀ out out', g.emit d = .ok out → (g.withPlatform platform).emit d = .ok out' →
      out'.diagnostics = out.diagnostics ∧
      (∀ s, d = .struct s → ∀ layout ∈ g.settings.targets, ∃ c c' transfers transfers',
        out.targets.get? layout = some (g.structText s c transfers) ∧
        out'.targets.get? layout = some (g.structText s c' transfers') ∧
        c' = { c with toNative := c'.toNative, fromNative := c'.fromNative }) ∧
      ((∀ s, d = .struct s → ∀ f ∈ s.fields, ¬ f.type.shape.IsWide) → out' = out) := by
  refine ⟨fun e => ?_, fun out out' hout hout' => ⟨?_, ?_, fun hnarrow => ?_⟩⟩
  · rw [← failure?_eq_some_iff, ← failure?_eq_some_iff, failure?_emit_withPlatform]
  · exact ((g.withPlatform platform).emitted hout').diagnostics.trans
      (g.emitted hout).diagnostics.symm
  · rintro s rfl layout hlayout
    obtain ⟨c, c', transfers, transfers', htext, htext', hconversions, _⟩ :=
      g.texts_withPlatform platform hout hout' hlayout
    exact ⟨c, c', transfers, transfers', htext, htext', hconversions⟩
  · have hemitted := g.emitted hout
    have hemitted' := (g.withPlatform platform).emitted hout'
    have htargets : out'.targets = out.targets := by
      refine LayoutMap.ext_get? fun layout => ?_
      by_cases hlayout : layout ∈ g.settings.targets
      · exact g.get?_withPlatform platform hout hout' hnarrow hlayout
      · rw [hemitted.absent layout hlayout, hemitted'.absent layout hlayout]
    obtain ⟨name, targets, diagnostics⟩ := out
    obtain ⟨name', targets', diagnostics'⟩ := out'
    simp only [DeclarationOutput.mk.injEq]
    exact ⟨hemitted'.name.trans hemitted.name.symm, htargets,
      hemitted'.diagnostics.trans hemitted.diagnostics.symm⟩

end Generator

namespace Valve

def mode : EnumType := ⟨.ofSegments ["Valve", "Mode"], ["OPEN", "SHUT"]⟩

/-- Every kind of field, none of them wide. -/
def status : StructType :=
  ⟨.ofSegments ["Valve", "Status"],
    [⟨"tag", .narrowString⟩, ⟨"mode", .enum mode⟩,
      ⟨"flows", .fixedArray (.fixedArray (.primitive .char) [3]) [2]⟩,
      ⟨"faults", .sequence .narrowString 8⟩], none⟩

/-- A wide string beside a number that loses precision. -/
def label : StructType :=
  ⟨.ofSegments ["Valve", "Label"],
    [⟨"text", .wideString⟩, ⟨"setting", .primitive .longdouble⟩], some "topic"⟩

def generator : Generator := ⟨{ Settings.default with targets := [.jagged] }, .empty⟩

end Valve

/-- The first struct has one output on both platforms, the second at least the same diagnostics. -/
theorem valve_platforms :
    (∃ out, Valve.generator.emit (.struct Valve.status) = .ok out ∧
      (Valve.generator.withPlatform .windows).emit (.struct Valve.status) = .ok out) ∧
    ∃ out out', Valve.generator.emit (.struct Valve.label) = .ok out ∧
      (Valve.generator.withPlatform .windows).emit (.struct Valve.label) = .ok out' ∧
      out'.diagnostics = out.diagnostics := by
  obtain ⟨_, hstatus⟩ := Generator.platform_confined Valve.generator .windows (.struct Valve.status)
  obtain ⟨_, hlabel⟩ := Generator.platform_confined Valve.generator .windows (.struct Valve.label)
  constructor
  · have hsame := (hstatus _ _ rfl rfl).2.2 fun s hs => by
      cases hs
      simp [Valve.status, TypeNode.shape, Shape.arrayOf, Shape.IsWide, Shape.item]
    exact ⟨_, rfl, congrArg Except.ok hsame⟩
  · exact ⟨_, _, rfl, rfl, (hlabel _ _ rfl rfl).1⟩

end InteropGen

import InteropGen.Proofs.Targets.Emission

/-!
# How the two layouts relate

The layout decides how arrays of several dimensions look on the managed side, and whether a sequence
may hold enums. Neither reaches the transfer side, and with one dimension the layouts coincide.

* `Target.valueClass_withLayout` — the value class of a struct without arrays of several dimensions
  does not depend on the layout, if both layouts accept it;
* `Generator.layouts_related` — lists of targets, acceptance, and texts.
-/

set_option autoImplicit false

namespace InteropGen

open CSharp

/-- The number of dimensions of a shape that is an array. -/
def Shape.rank : Shape → Nat
  | .array _ dims => dims.length
  | _ => 0

/-! ## One dimension -/

section
variable (layout : Layout) (element : Ty) (base index : Expr) (d : Nat)

theorem Layout.arrayType_one : layout.arrayType element 1 = .array element 1 := by
  cases layout <;> rfl

theorem Layout.arrayAllocation_singleton :
    layout.arrayAllocation element [d] = .newArray element [d] 0 := by
  cases layout <;> rfl

theorem Layout.elementAt_singleton : layout.elementAt base [index] = .index base [index] := by
  cases layout <;> rfl

theorem Layout.rows?_singleton : layout.rows? base element [d] = none := by
  cases layout <;> rfl

theorem Layout.needsElementInit_singleton (shape : Shape) :
    layout.needsElementInit shape [d] = shape.isNullByDefault := by
  cases layout <;> rfl

theorem loopNest_singleton (depth : Nat) (body : List Expr → List Stmt) :
    loopNest depth [d] none body = [.countUp depth (.nat d) (body [counter depth])] := rfl

end

theorem ValidDims.eq_singleton_of_length_le {dims : List Nat} (valid : ValidDims dims)
    (h : dims.length ≤ 1) : ∃ d, dims = [d] := by
  refine valid.eq_singleton ?_
  simp only [multiDimensional, decide_eq_false_iff_not]
  omega

namespace Target

/-- The target with another layout. -/
def withLayout (t : Target) (layout : Layout) : Target :=
  { t with layout }

variable (t : Target) (layout : Layout) (depth : Nat) (f : FieldView)

theorem property_withLayout (h : f.shape.Transferable t.layout) (hrank : f.shape.rank ≤ 1) :
    (t.withLayout layout).property f = t.property f := by
  obtain ⟨e, hshape⟩ | ⟨e, dims, hshape, valid⟩ | ⟨e, maxBound, hshape, _⟩ := h.cases
  · simp only [property, hshape, valueType_element]
  · rw [hshape] at hrank
    obtain ⟨d, rfl⟩ := valid.eq_singleton_of_length_le hrank
    simp only [property, hshape, valueType_array _ _ e [d] valid, List.length_singleton,
      Layout.arrayType_one]
  · simp only [property, hshape, valueType_sequence]

theorem initial_withLayout (h : f.shape.Transferable t.layout) (hrank : f.shape.rank ≤ 1) :
    ((t.withLayout layout).initial depth f).stmts = (t.initial depth f).stmts := by
  obtain ⟨e, hshape⟩ | ⟨e, dims, hshape, valid⟩ | ⟨e, maxBound, hshape, _⟩ := h.cases
  · simp only [initial_element _ depth f e hshape]
  · rw [hshape] at hrank
    obtain ⟨d, rfl⟩ := valid.eq_singleton_of_length_le hrank
    simp only [initial_array _ depth f e [d] hshape valid, Layout.arrayAllocation_singleton,
      Layout.needsElementInit_singleton, fillArray, Layout.rows?_singleton, loopNest_singleton,
      Layout.elementAt_singleton]
  · simp only [initial_sequence _ depth f e maxBound hshape]

theorem toNative_withLayout (h : f.shape.Transferable t.layout) (h' : f.shape.Transferable layout)
    (hrank : f.shape.rank ≤ 1) :
    ((t.withLayout layout).toNative depth f).stmts = (t.toNative depth f).stmts := by
  obtain ⟨e, hshape⟩ | ⟨e, dims, hshape, valid⟩ | ⟨e, maxBound, hshape, bridges⟩ := h.cases
  · simp only [toNative_element _ depth f e hshape]
    rfl
  · rw [hshape] at hrank
    obtain ⟨d, rfl⟩ := valid.eq_singleton_of_length_le hrank
    simp only [toNative_array _ depth f e [d] hshape valid, inlineArrayToNative,
      outOfLineArrayToNative, loopNest_singleton, Layout.elementAt_singleton]
    rfl
  · rw [hshape, Shape.sequence_transferable_iff, ← Layout.bridges_iff] at h'
    rw [toNative_sequence _ depth f e maxBound hshape bridges,
      toNative_sequence _ depth f e maxBound hshape h'.2]
    rfl

theorem fromNative_withLayout (h : f.shape.Transferable t.layout) (h' : f.shape.Transferable layout)
    (hrank : f.shape.rank ≤ 1) :
    ((t.withLayout layout).fromNative depth f).stmts = (t.fromNative depth f).stmts := by
  obtain ⟨e, hshape⟩ | ⟨e, dims, hshape, valid⟩ | ⟨e, maxBound, hshape, bridges⟩ := h.cases
  · simp only [fromNative_element _ depth f e hshape]
    rfl
  · rw [hshape] at hrank
    obtain ⟨d, rfl⟩ := valid.eq_singleton_of_length_le hrank
    simp only [fromNative_array _ depth f e [d] hshape valid, inlineArrayFromNative,
      outOfLineArrayFromNative, Layout.arrayAllocation_singleton, Layout.rows?_singleton,
      loopNest_singleton, Layout.elementAt_singleton]
    rfl
  · rw [hshape, Shape.sequence_transferable_iff, ← Layout.bridges_iff] at h'
    rw [fromNative_sequence _ depth f e maxBound hshape bridges,
      fromNative_sequence _ depth f e maxBound hshape h'.2]
    rfl

theorem encode_withLayout (h : f.shape.Encodable) (hrank : f.shape.rank ≤ 1) :
    ((t.withLayout layout).encode depth f).stmts = (t.encode depth f).stmts := by
  obtain ⟨e, tag, hshape, htag⟩ | ⟨en, hshape⟩ | ⟨e, tag, dims, hshape, htag, valid⟩ |
    ⟨e, tag, maxBound, hshape, htag⟩ := h.cases
  · simp only [encode_scalar _ depth f e tag hshape htag]
  · simp only [encode_enum _ depth f en hshape]
  · rw [hshape] at hrank
    obtain ⟨d, rfl⟩ := valid.eq_singleton_of_length_le hrank
    simp only [encode_array _ depth f e tag [d] hshape htag valid, encodeArray, loopNest_singleton,
      Layout.elementAt_singleton]
  · simp only [encode_sequence _ depth f e tag maxBound hshape htag]

theorem decode_withLayout (h : f.shape.Encodable) (hrank : f.shape.rank ≤ 1) :
    ((t.withLayout layout).decode depth f).stmts = (t.decode depth f).stmts := by
  obtain ⟨e, tag, hshape, htag⟩ | ⟨en, hshape⟩ | ⟨e, tag, dims, hshape, htag, valid⟩ |
    ⟨e, tag, maxBound, hshape, htag⟩ := h.cases
  · simp only [decode_scalar _ depth f e tag hshape htag]
  · simp only [decode_enum _ depth f en hshape]
  · rw [hshape] at hrank
    obtain ⟨d, rfl⟩ := valid.eq_singleton_of_length_le hrank
    simp only [decode_array _ depth f e tag [d] hshape htag valid, decodeArray,
      Layout.arrayAllocation_singleton, Layout.rows?_singleton, loopNest_singleton,
      Layout.elementAt_singleton]
  · simp only [decode_sequence _ depth f e tag maxBound hshape htag]

/-- Two layouts that accept a struct without arrays of several dimensions give it one class. -/
theorem valueClass_withLayout (codec : Bool) (s : StructType) (fields : List FieldView)
    (c c' : ValueClass) (notes notes' : List Diagnostic)
    (h : t.valueClass codec s fields = .ok (c, notes))
    (h' : (t.withLayout layout).valueClass codec s fields = .ok (c', notes'))
    (hrank : ∀ f ∈ fields, f.shape.rank ≤ 1) : c' = c := by
  have hfields := (t.valueClass_ok_iff codec s fields).mp ⟨_, h⟩
  have hfields' := ((t.withLayout layout).valueClass_ok_iff codec s fields).mp ⟨_, h'⟩
  obtain ⟨hproperties, hclass⟩ := t.valueClass_written codec s fields c notes h
  obtain ⟨hproperties', hclass'⟩ :=
    (t.withLayout layout).valueClass_written codec s fields c' notes' h'
  have hsame : c'.properties = c.properties := by
    have hmap : fields.mapM (t.withLayout layout).property = fields.mapM t.property :=
      except_mapM_congr fun f hf => t.property_withLayout layout f (hfields f hf).1 (hrank f hf)
    rw [hmap, hproperties] at hproperties'
    exact (Except.ok.inj hproperties').symm
  have hinitial : bodyOf fields (t.withLayout layout).initial = bodyOf fields t.initial :=
    List.flatMap_congr fun f hf => t.initial_withLayout layout 0 f (hfields f hf).1 (hrank f hf)
  have hto : bodyOf fields (t.withLayout layout).toNative = bodyOf fields t.toNative :=
    List.flatMap_congr fun f hf =>
      t.toNative_withLayout layout 0 f (hfields f hf).1 (hfields' f hf).1 (hrank f hf)
  have hfrom : bodyOf fields (t.withLayout layout).fromNative = bodyOf fields t.fromNative :=
    List.flatMap_congr fun f hf =>
      t.fromNative_withLayout layout 0 f (hfields f hf).1 (hfields' f hf).1 (hrank f hf)
  have hcodec : (if codec then some (bodyOf fields (t.withLayout layout).encode,
        bodyOf fields (t.withLayout layout).decode) else none) =
      if codec then some (bodyOf fields t.encode, bodyOf fields t.decode) else none := by
    cases codec with
    | false => rfl
    | true =>
      have hencode : bodyOf fields (t.withLayout layout).encode = bodyOf fields t.encode :=
        List.flatMap_congr fun f hf =>
          t.encode_withLayout layout 0 f ((hfields f hf).2 rfl) (hrank f hf)
      have hdecode : bodyOf fields (t.withLayout layout).decode = bodyOf fields t.decode :=
        List.flatMap_congr fun f hf =>
          t.decode_withLayout layout 0 f ((hfields f hf).2 rfl) (hrank f hf)
      rw [hencode, hdecode]
  rw [hclass, hclass']
  unfold writtenClass
  rw [hsame, hinitial, hto, hfrom, hcodec]
  rfl

end Target

/-- The layouts accept the same shapes, sequences of enums apart. -/
theorem Shape.transferable_rectangular_iff (shape : Shape) :
    shape.Transferable .rectangular ↔
      shape.Transferable .jagged ∧ ∀ e maxBound, shape ≠ .sequence (.enum e) maxBound := by
  cases shape with
  | sequence element maxBound =>
    rw [Shape.sequence_transferable_iff, Shape.sequence_transferable_iff]
    simp
  | _ => simp [Shape.Transferable]

theorem TypeNode.accepted_rectangular_iff (type : TypeNode) (codec : Bool) :
    type.Accepted .rectangular codec ↔
      type.Accepted .jagged codec ∧ ∀ e maxBound, type.shape ≠ .sequence (.enum e) maxBound := by
  rw [TypeNode.accepted_iff, TypeNode.accepted_iff, Shape.transferable_rectangular_iff]
  exact and_right_comm

namespace Target

variable (t : Target) (layout : Layout)

/-- What two layouts make of a declaration that both accept. -/
theorem declarationCode_withLayout (wireCodec : Bool) (d : Declaration)
    (code code' : DeclarationCode) (h : t.declarationCode wireCodec d = .ok code)
    (h' : (t.withLayout layout).declarationCode wireCodec d = .ok code') :
    code'.units.transfers = code.units.transfers ∧
      ((∀ s, d = .struct s → ∀ f ∈ s.fields, f.type.shape.rank ≤ 1) →
        code'.units.values = code.units.values) := by
  cases d with
  | struct s =>
    obtain ⟨c, notes, transfers, hclass, htransfers, rfl⟩ := t.structCode_parts wireCodec s code h
    obtain ⟨c', notes', transfers', hclass', htransfers', rfl⟩ :=
      (t.withLayout layout).structCode_parts wireCodec s code' h'
    have hsame : Except.ok transfers' = (.ok transfers : Except GenError TransferStruct) :=
      htransfers'.symm.trans htransfers
    refine ⟨by rw [Except.ok.inj hsame], fun hrank => ?_⟩
    have hviews : ∀ f ∈ views s, f.shape.rank ≤ 1 := forall_mem_views (hrank s rfl)
    rw [t.valueClass_withLayout layout _ s (views s) c c' notes notes' hclass hclass' hviews]
  | _ =>
    have hsame : Except.ok code' = (.ok code : Except GenError DeclarationCode) := h'.symm.trans h
    cases hsame
    exact ⟨rfl, fun _ => rfl⟩

end Target

namespace Generator

variable (g : Generator)

/-- The generator with other targets. -/
def withTargets (layouts : List Layout) : Generator :=
  { g with settings := { g.settings with targets := layouts } }

theorem emit_alone_iff (d : Declaration) (layout : Layout) :
    (∃ alone, (g.withTargets [layout]).emit d = .ok alone) ↔
      ∃ code, (g.target layout).declarationCode g.settings.wireCodec d = .ok code := by
  rw [emit_ok_iff]
  exact List.forall_mem_singleton

/-- The text for one target alone. -/
theorem text_alone {d : Declaration} {layout : Layout} {alone : DeclarationOutput}
    (h : (g.withTargets [layout]).emit d = .ok alone) :
    ∃ code, (g.target layout).declarationCode g.settings.wireCodec d = .ok code ∧
      alone.targets.get? layout = some (g.unitText d code) :=
  ((g.withTargets [layout]).emitted h).text layout (List.mem_singleton.mpr rfl)

/-- Other targets do not show in what is generated for a target. -/
theorem output_alone {d : Declaration} {layouts : List Layout} {out : DeclarationOutput}
    (h : (g.withTargets layouts).emit d = .ok out) {layout : Layout} (hlayout : layout ∈ layouts) :
    ∃ alone text, (g.withTargets [layout]).emit d = .ok alone ∧
      alone.targets.get? layout = some text ∧ out.targets.get? layout = some text ∧
      out.diagnostics = alone.diagnostics := by
  have hemitted := (g.withTargets layouts).emitted h
  obtain ⟨code, hcode, htext⟩ := hemitted.text layout hlayout
  obtain ⟨alone, halone⟩ := (g.emit_alone_iff d layout).mpr ⟨code, hcode⟩
  obtain ⟨code', hcode', htext'⟩ := g.text_alone halone
  have hsame : Except.ok code' = (.ok code : Except GenError DeclarationCode) :=
    hcode'.symm.trans hcode
  cases hsame
  have hne : (g.withTargets layouts).settings.targets ≠ [] := List.ne_nil_of_mem hlayout
  have hdiagnostics := hemitted.diagnostics
  rw [if_neg hne] at hdiagnostics
  exact ⟨alone, _, halone, htext', htext,
    hdiagnostics.trans ((g.withTargets [layout]).emitted halone).diagnostics.symm⟩

theorem emit_rectangular_iff (s : StructType) :
    (∃ out, (g.withTargets [.rectangular]).emit (.struct s) = .ok out) ↔
      (∃ out, (g.withTargets [.jagged]).emit (.struct s) = .ok out) ∧
        ∀ f ∈ s.fields, ∀ e maxBound, f.type.shape ≠ .sequence (.enum e) maxBound := by
  rw [emit_struct_ok_iff, emit_struct_ok_iff]
  simp only [withTargets, List.forall_mem_singleton, TypeNode.accepted_rectangular_iff]
  constructor
  · intro h
    exact ⟨fun f hf => (h f hf).1, fun f hf => (h f hf).2⟩
  · intro h f hf
    exact ⟨h.1 f hf, h.2 f hf⟩

/-- **How the two layouts relate.** A declaration is accepted for a list of targets exactly if it is
accepted for each of them alone, and what is generated for a target is then what is generated for it
alone. The rectangular layout accepts the structs of the jagged one that have no sequence of enums.
If both accept a declaration, its transfer text and its diagnostics are the same, and so is its value
text unless a field is an array of several dimensions. -/
theorem layouts_related (d : Declaration) :
    (∀ layouts,
      ((∃ out, (g.withTargets layouts).emit d = .ok out) ↔
        ∀ layout ∈ layouts, ∃ alone, (g.withTargets [layout]).emit d = .ok alone) ∧
      ∀ out, (g.withTargets layouts).emit d = .ok out → ∀ layout ∈ layouts,
        ∃ alone text, (g.withTargets [layout]).emit d = .ok alone ∧
          alone.targets.get? layout = some text ∧ out.targets.get? layout = some text ∧
          out.diagnostics = alone.diagnostics) ∧
    (∀ s, d = .struct s →
      ((∃ out, (g.withTargets [.rectangular]).emit d = .ok out) ↔
        (∃ out, (g.withTargets [.jagged]).emit d = .ok out) ∧
          ∀ f ∈ s.fields, ∀ e maxBound, f.type.shape ≠ .sequence (.enum e) maxBound)) ∧
    ∀ r j, (g.withTargets [.rectangular]).emit d = .ok r →
      (g.withTargets [.jagged]).emit d = .ok j →
      ∃ rectangular jagged, r.targets.get? .rectangular = some rectangular ∧
        j.targets.get? .jagged = some jagged ∧
        jagged.transfers = rectangular.transfers ∧ j.diagnostics = r.diagnostics ∧
        ((∀ s, d = .struct s → ∀ f ∈ s.fields, f.type.shape.rank ≤ 1) →
          jagged.values = rectangular.values) := by
  refine ⟨fun layouts => ⟨?_, fun out hout layout hlayout => g.output_alone hout hlayout⟩, ?_,
    fun r j hr hj => ?_⟩
  · simp only [emit_alone_iff]
    exact (g.withTargets layouts).emit_ok_iff d
  · rintro s rfl
    exact g.emit_rectangular_iff s
  · obtain ⟨code, hcode, htext⟩ := g.text_alone hr
    obtain ⟨code', hcode', htext'⟩ := g.text_alone hj
    obtain ⟨htransfers, hvalues⟩ :=
      (g.target .rectangular).declarationCode_withLayout .jagged _ d code code' hcode hcode'
    refine ⟨_, _, htext, htext', ?_, ?_, fun hrank => ?_⟩
    · simp only [unitText, Sides.map, htransfers]
    · exact ((g.withTargets [.jagged]).emitted hj).diagnostics.trans
        ((g.withTargets [.rectangular]).emitted hr).diagnostics.symm
    · simp only [unitText, Sides.map, hvalues hrank]

end Generator

namespace Buoy

/-- Beside arrays of one dimension, a number that loses precision. -/
def report : StructType :=
  ⟨.ofSegments ["Buoy", "Report"],
    [⟨"depths", .fixedArray (.primitive .longdouble) [4]⟩,
      ⟨"labels", .fixedArray .narrowString [2]⟩, ⟨"drift", .primitive .f32⟩], some "topic"⟩

def generator : Generator := ⟨.default, .empty⟩

end Buoy

/-- Both layouts accept the struct and write the same text. -/
theorem buoy_layouts :
    ∃ r j text, (Buoy.generator.withTargets [.rectangular]).emit (.struct Buoy.report) = .ok r ∧
      (Buoy.generator.withTargets [.jagged]).emit (.struct Buoy.report) = .ok j ∧
      r.targets.get? .rectangular = some text ∧ j.targets.get? .jagged = some text := by
  obtain ⟨_, hrectangular, htexts⟩ := Generator.layouts_related Buoy.generator (.struct Buoy.report)
  have hj : ∃ j, (Buoy.generator.withTargets [.jagged]).emit (.struct Buoy.report) = .ok j :=
    ⟨_, rfl⟩
  obtain ⟨r, hr⟩ := (hrectangular Buoy.report rfl).mpr
    ⟨hj, by simp [Buoy.report, TypeNode.shape, Shape.arrayOf]⟩
  obtain ⟨j, hj⟩ := hj
  obtain ⟨rectangular, jagged, htext, htext', htransfers, _, hvalues⟩ := htexts r j hr hj
  refine ⟨r, j, rectangular, hr, hj, htext, ?_⟩
  have hsame := hvalues fun s hs => by
    cases hs
    decide
  rw [htext']
  obtain ⟨values, transfers⟩ := jagged
  obtain rfl : values = rectangular.values := hsame
  obtain rfl : transfers = rectangular.transfers := htransfers
  rfl

end InteropGen

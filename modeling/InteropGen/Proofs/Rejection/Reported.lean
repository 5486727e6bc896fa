import InteropGen.Proofs.Rejection.Faults

/-!
# Which error is reported

A rejected struct may break several rules in several fields. What is reported is the error of the
first target that rejects it, and on that target the error of the first rule that is broken, by the
first field that breaks it.

* `Target.failure?_valueClass`, `Target.failure?_structCode` — one target;
* `Generator.reported_error` — all configured targets.
-/

set_option autoImplicit false

namespace InteropGen

open CSharp

namespace Target

variable (t : Target)

/-- The two directions of the wire codec fail alike. -/
theorem failure?_codecBodies (fields : List FieldView)
    (h : ∀ f ∈ fields, f.shape.Transferable t.layout) :
    failure? (t.codecBodies fields) = fields.findSome? Rule.messageFault? := by
  have hencode : failure? (methodBody fields t.encode) = fields.findSome? Rule.messageFault? := by
    rw [failure?_methodBody]
    exact findSome?_congr fun f hf => t.failure?_encode 0 f (h f hf)
  rw [← hencode]
  refine failure?_bind_pure fun encoded hencoded => ?_
  obtain ⟨decoded, hdecoded⟩ := (methodBody_ok_iff fields t.decode).mpr fun f hf =>
    (t.decode_finishes_iff 0 f).mpr
      ((t.encode_finishes_iff 0 f).mp ((methodBody_ok_iff fields t.encode).mp ⟨_, hencoded⟩ f hf))
  rw [hdecoded]
  rfl

theorem failure?_valueClass (codec : Bool) (s : StructType) (fields : List FieldView)
    (hunion : ∀ f ∈ fields, f.shape.findUnion = none) (hmerged : ∀ f ∈ fields, f.shape.IsMerged) :
    failure? (t.valueClass codec s fields) =
      [Rule.validDims, .fillableRows, .marshalledElements, .flatMessages].findSome? fun rule =>
        fields.findSome? (rule.fault? t.layout codec ·) := by
  have hproperties : failure? (fields.mapM t.property) =
      fields.findSome? (Rule.validDims.fault? t.layout codec ·) := by
    rw [failure?_mapM]
    exact findSome?_congr fun f hf =>
      (failure?_bind_pure fun _ _ => rfl).trans (t.failure?_valueType f.site f.shape (hunion f hf))
  rw [findSome?_cons_or, ← hproperties]
  refine failure?_bind fun properties hp => ?_
  -- from here on the dimensions of every field are valid
  have hdims : ∀ f ∈ fields, f.shape.invalidDims? = none := by
    rw [hp, failure?_ok, eq_comm, List.findSome?_eq_none_iff] at hproperties
    exact fun f hf => Option.map_eq_none_iff.mp (hproperties f hf)
  have hinitial : failure? (methodBody fields t.initial) =
      fields.findSome? (Rule.fillableRows.fault? t.layout codec ·) := by
    rw [failure?_methodBody]
    exact findSome?_congr fun f hf =>
      t.failure?_initial 0 f (hunion f hf) (hmerged f hf) (hdims f hf)
  rw [findSome?_cons_or, ← hinitial]
  refine failure?_bind fun _ _ => ?_
  have htoNative : failure? (methodBody fields t.toNative) =
      fields.findSome? (Rule.marshalledElements.fault? t.layout codec ·) := by
    rw [failure?_methodBody]
    exact findSome?_congr fun f hf =>
      t.failure?_toNative 0 f (hunion f hf) (hmerged f hf) (hdims f hf)
  rw [findSome?_cons_or, ← htoNative]
  refine failure?_bind fun toNative hto => ?_
  -- and from here on every field can be transferred
  have htransfer : ∀ f ∈ fields, f.shape.Transferable t.layout := fun f hf =>
    (t.toNative_finishes_iff 0 f).mp ((methodBody_ok_iff fields t.toNative).mp ⟨_, hto⟩ f hf)
  obtain ⟨⟨fromNative, _⟩, hfrom⟩ := (methodBody_ok_iff fields t.fromNative).mpr fun f hf =>
    (t.fromNative_finishes_iff 0 f).mpr (htransfer f hf)
  obtain ⟨⟨release, _⟩, hrelease⟩ := (methodBody_ok_iff fields releaseNative).mpr fun f hf =>
    t.releaseNative_finishes 0 f (htransfer f hf)
  rw [findSome?_cons_or, List.findSome?_nil, Option.or_none, failure?_bind_of_ok hfrom,
    failure?_bind_of_ok hrelease]
  cases codec with
  | false => exact (List.findSome?_eq_none_iff.mpr fun _ _ => rfl).symm
  | true =>
    refine Eq.trans ?_ (t.failure?_codecBodies fields htransfer)
    exact failure?_bind_pure fun _ _ => rfl

theorem failure?_structCode (wireCodec : Bool) (s : StructType) :
    failure? (t.structCode wireCodec s) =
      s.firstFault? t.layout (wireCodec && s.isDistinguished) := by
  have hviews :
      (views s).findSome? (Rule.noUnion.fault? t.layout (wireCodec && s.isDistinguished) ·) =
      (s.fields.findSome? (·.type.findUnion)).map fun u =>
        .unsupportedUnion s.name.qualified u.name.qualified := by
    rw [views, List.findSome?_map, List.map_findSome?]
    refine findSome?_congr fun f _ => ?_
    rw [Function.comp_apply, Function.comp_apply, ← f.type.findUnion_shape]
    rfl
  unfold StructOf.firstFault? Rule.inOrder structCode
  rw [findSome?_cons_or, hviews]
  cases hunion : s.fields.findSome? (·.type.findUnion) with
  | some u => rfl
  | none =>
    have hunions : ∀ f ∈ views s, f.shape.findUnion = none :=
      forall_mem_views fun f hf =>
        f.type.findUnion_shape.trans (List.findSome?_eq_none_iff.mp hunion f hf)
    have hmerged : ∀ f ∈ views s, f.shape.IsMerged :=
      forall_mem_views fun f _ => f.type.shape_isMerged
    rw [Option.map_none, Option.none_or,
      ← t.failure?_valueClass (wireCodec && s.isDistinguished) s (views s) hunions hmerged]
    -- what has a value class has a transfer struct
    refine failure?_bind_pure fun values hvalues => ?_
    have hfields := (t.valueClass_ok_iff _ s (views s)).mp ⟨values, hvalues⟩
    obtain ⟨transfers, htransfers⟩ := t.transferStruct_ok s (views s) fun f hf => (hfields f hf).1
    exact failure?_bind_of_ok htransfers

end Target

namespace Generator

variable (g : Generator)

theorem failure?_emit (d : Declaration) :
    failure? (g.emit d) = g.settings.targets.findSome? fun layout =>
      failure? ((g.target layout).declarationCode g.settings.wireCodec d) :=
  failure?_foldlM (g.emitLayout d) _ (fun _ _ => failure?_bind_pure fun _ _ => rfl) _ _

/-- **Which error is reported.** Generating a struct fails with an error exactly if that is the error
of the first configured target that rejects it: on that target, of the first rule that is broken, by
the first field that breaks it. Nothing is asked of the settings. -/
theorem reported_error (s : StructType) (e : GenError) :
    g.emit (.struct s) = .error e ↔
      g.settings.targets.findSome? (fun layout =>
        s.firstFault? layout (g.settings.wireCodec && s.isDistinguished)) = some e := by
  rw [← failure?_eq_some_iff, failure?_emit]
  have hlayout : ∀ layout,
      failure? ((g.target layout).declarationCode g.settings.wireCodec (.struct s)) =
        s.firstFault? layout (g.settings.wireCodec && s.isDistinguished) :=
    fun layout => (g.target layout).failure?_structCode g.settings.wireCodec s
  simp only [hlayout]

end Generator

/-- The nested sequence comes first, but dimensions are checked before elements. -/
example :
    (StructOf.mk (.ofSegments ["Radio"])
      [⟨"tracks", .sequence (.sequence (.primitive .u8) 0) 0⟩,
        ⟨"bands", .sequence (.fixedArray (.fixedArray (.primitive .f32) [0]) [4]) 0⟩,
        ⟨"gains", .fixedArray (.primitive .f64) []⟩] none).firstFault? .jagged true =
      some (.invalidDimensions ⟨"Radio", "bands"⟩ [4, 0]) := by
  decide

end InteropGen

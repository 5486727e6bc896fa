import InteropGen.Proofs.Acceptance
import InteropGen.Proofs.Transfer.Elements

/-!
# Compiled structs

A machine runs the generated code of a struct if it was compiled with the declarations that the
generator emits for it, for the structs nested in it and for their enums. How deeply structs are
nested bounds how deeply their methods call each other.

* `Compiled` — that a machine was compiled with all of them;
* `nesting_lt` — what a field refers to is nested less deeply than its struct.
-/

set_option autoImplicit false

namespace InteropGen

open CSharp

/-- The struct that a shape refers to by itself or as its element. -/
def Shape.structs : Shape → List StructType
  | .struct s => [s]
  | .array element _ | .sequence element _ => element.structs
  | _ => []

/-- The enum that a shape refers to by itself or as its element. -/
def Shape.enums : Shape → List EnumType
  | .enum e => [e]
  | .array element _ | .sequence element _ => element.enums
  | _ => []

theorem mem_structs_element {e : Element} {s : StructType} (h : e = .struct s) :
    s ∈ e.shape.structs := by
  subst h
  exact List.mem_singleton.mpr rfl

theorem mem_enums_element {e : Element} {en : EnumType} (h : e = .enum en) :
    en ∈ e.shape.enums := by
  subst h
  exact List.mem_singleton.mpr rfl

mutual

/-- How deeply structs are nested in a type. -/
def TypeNode.nesting : TypeNode → Nat
  | .struct ⟨_, fields, _⟩ => fieldsNesting fields + 1
  | .alias ⟨_, target⟩ => target.nesting
  | .fixedArray element _ => element.nesting
  | .sequence element _ => element.nesting
  | _ => 0

/-- How deeply structs are nested in the fields of a struct. -/
def fieldsNesting : List (FieldOf TypeNode) → Nat
  | [] => 0
  | ⟨_, type⟩ :: rest => max type.nesting (fieldsNesting rest)

end

theorem nesting_le_fieldsNesting (fields : List Field) (f : Field) (hf : f ∈ fields) :
    f.type.nesting ≤ fieldsNesting fields := by
  induction fields with
  | nil => cases hf
  | cons first rest ih =>
    obtain ⟨name, type⟩ := first
    rw [fieldsNesting]
    rcases List.mem_cons.mp hf with heq | hmem
    · subst heq
      exact Nat.le_max_left ..
    · exact Nat.le_trans (ih hmem) (Nat.le_max_right ..)

theorem structs_arrayOf (dims : List Nat) (shape : Shape) :
    (Shape.arrayOf dims shape).structs = shape.structs := by
  cases shape <;> rfl

/-- A shape refers to structs no more deeply nested than its type. -/
theorem nesting_le_of_mem_structs (s : StructType) :
    (node : TypeNode) → s ∈ node.shape.structs → (TypeNode.struct s).nesting ≤ node.nesting
  | .struct s', h => by
    have hsame : s = s' := List.mem_singleton.mp h
    subst hsame
    exact Nat.le_refl _
  | .alias ⟨_, target⟩, h => by
    rw [TypeNode.nesting.eq_2]
    exact nesting_le_of_mem_structs s target h
  | .fixedArray element dims, h => by
    have helement : s ∈ element.shape.structs := structs_arrayOf dims element.shape ▸ h
    rw [TypeNode.nesting.eq_3]
    exact nesting_le_of_mem_structs s element helement
  | .sequence element _, h => by
    rw [TypeNode.nesting.eq_4]
    exact nesting_le_of_mem_structs s element h
  | .primitive _, h => nomatch h
  | .narrowString, h => nomatch h
  | .wideString, h => nomatch h
  | .enum _, h => nomatch h
  | .union _, h => nomatch h

/-- How deeply structs are nested in a struct, itself counted. -/
def StructOf.nesting (s : StructType) : Nat :=
  (TypeNode.struct s).nesting

theorem nesting_eq (s : StructType) : s.nesting = fieldsNesting s.fields + 1 := by
  obtain ⟨name, fields, category⟩ := s
  rw [StructOf.nesting, TypeNode.nesting]

theorem nesting_lt (s inner : StructType) (f : Field) (hf : f ∈ s.fields)
    (hinner : inner ∈ f.type.shape.structs) : inner.nesting < s.nesting := by
  have hfield := nesting_le_of_mem_structs inner f.type hinner
  have hfields := nesting_le_fieldsNesting s.fields f hf
  rw [nesting_eq s]
  unfold StructOf.nesting
  omega

/-- The struct itself, or one that its fields refer to at any depth. -/
inductive NestedIn : (inner outer : StructType) → Prop
  | refl (s : StructType) : NestedIn s s
  | field (inner middle outer : StructType) (f : Field) (hf : f ∈ outer.fields)
      (hmiddle : middle ∈ f.type.shape.structs) (rest : NestedIn inner middle) :
      NestedIn inner outer

theorem views_names (s : StructType) :
    (Target.views s).map (·.site.field) = s.fields.map (·.name) := by
  rw [Target.views, List.map_map]
  rfl

section
variable (m : Machine) (t : Target) (wireCodec : Bool)

/-- The machine knows the code that is generated for the enum. -/
structure HostsEnum (e : EnumType) : Prop where
  value : m.decls e.name.dotted = (t.enumCode e).units.values.map (·.decl)
  transfer : m.decls (e.name.dotted ++ t.transferSuffix) =
    (t.enumCode e).units.transfers.map (·.decl)

/-- The struct is accepted and the machine knows the code that is generated for it. The names of its
fields are distinct, and its bounds are numbers of type `int`. -/
structure HostsStruct (s : StructType) : Prop where
  accepted : ∃ code, t.structCode wireCodec s = .ok code ∧
    m.decls s.name.dotted = code.units.values.map (·.decl) ∧
    m.decls (s.name.dotted ++ t.transferSuffix) = code.units.transfers.map (·.decl)
  distinct : (s.fields.map (·.name)).Nodup
  bounds : ∀ f ∈ s.fields, ∀ element maxBound, f.type.shape = .sequence element maxBound →
    maxBound ≤ 2147483647
  enums : ∀ f ∈ s.fields, ∀ e ∈ f.type.shape.enums, HostsEnum m t e

/-- The machine was compiled with the code of a struct and of everything nested in it. -/
def Compiled (s : StructType) : Prop :=
  ∀ inner, NestedIn inner s → HostsStruct m t wireCodec inner

variable {m t wireCodec}

theorem Compiled.hosts {s : StructType} (h : Compiled m t wireCodec s) :
    HostsStruct m t wireCodec s :=
  h s (.refl s)

theorem Compiled.field {s middle : StructType} (h : Compiled m t wireCodec s) (f : Field)
    (hf : f ∈ s.fields) (hmiddle : middle ∈ f.type.shape.structs) : Compiled m t wireCodec middle :=
  fun inner hinner => h inner (.field inner middle s f hf hmiddle hinner)

theorem HostsEnum.declares {e : EnumType} (h : HostsEnum m t e) : DeclaresEnum m t e := by
  constructor
  · simp [Machine.isEnum, h.value, Target.enumCode]
  · simp [Machine.isEnum, h.transfer, Target.enumCode]

/-- What the machine knows of a struct: its value class, its transfer struct, and that its fields can
be transferred. -/
structure Declares (m : Machine) (t : Target) (wireCodec : Bool) (s : StructType) (c : ValueClass)
    (transfers : TransferStruct) : Prop where
  value : m.decls s.name.dotted = some (.valueClass c)
  transfer : m.decls (s.name.dotted ++ t.transferSuffix) = some (.transferStruct transfers)
  bodies : t.WritesBodies (wireCodec && s.isDistinguished) (Target.views s) c
  fields : t.transferStruct s (Target.views s) = .ok transfers
  transferable : ∀ f ∈ s.fields, f.type.shape.Transferable t.layout

/-- The code of an accepted struct: a value class with the statements of its fields, and a transfer
struct. -/
theorem structCode_cases {s : StructType} {code : DeclarationCode}
    (h : t.structCode wireCodec s = .ok code) :
    ∃ c transfers, t.WritesBodies (wireCodec && s.isDistinguished) (Target.views s) c ∧
      t.transferStruct s (Target.views s) = .ok transfers ∧
      code.units = ⟨some ⟨s.name.enclosing, .valueClass c⟩,
        some ⟨s.name.enclosing, .transferStruct transfers⟩⟩ := by
  obtain ⟨c, notes, transfers, hclass, htransfers, rfl⟩ := t.structCode_parts wireCodec s code h
  exact ⟨c, transfers, t.valueClass_bodies _ s _ c notes hclass, htransfers, rfl⟩

/-- The value class of an accepted struct. -/
theorem structCode_valueClass {s : StructType} {code : DeclarationCode}
    (h : t.structCode wireCodec s = .ok code) :
    ∃ c notes, t.valueClass (wireCodec && s.isDistinguished) s (Target.views s) = .ok (c, notes) ∧
      code.units.values = some ⟨s.name.enclosing, .valueClass c⟩ := by
  obtain ⟨c, notes, _, hclass, _, rfl⟩ := t.structCode_parts wireCodec s code h
  exact ⟨c, notes, hclass, rfl⟩

theorem structCode_transferable {s : StructType} {code : DeclarationCode}
    (h : t.structCode wireCodec s = .ok code) (f : Field) (hf : f ∈ s.fields) :
    f.type.shape.Transferable t.layout := by
  have haccepted := (t.structCode_ok_iff wireCodec s).mp ⟨code, h⟩ f hf
  exact ((TypeNode.accepted_iff _ _ _).mp haccepted).1

/-- The element and the dimensions of an array in an accepted struct. -/
theorem structCode_array {s : StructType} {code : DeclarationCode}
    (h : t.structCode wireCodec s = .ok code) (f : FieldView) (hf : f ∈ Target.views s)
    (element : Shape) (dims : List Nat) (hshape : f.shape = .array element dims) :
    (∃ e : Element, element = e.shape) ∧ ValidDims dims := by
  have htransferable : ∀ g ∈ Target.views s, g.shape.Transferable t.layout :=
    forall_mem_views (structCode_transferable h)
  have harray := htransferable f hf
  rw [hshape] at harray
  exact harray

theorem structCode_encodable {s : StructType} {code : DeclarationCode}
    (h : t.structCode wireCodec s = .ok code) (hcodec : (wireCodec && s.isDistinguished) = true)
    (f : Field) (hf : f ∈ s.fields) : f.type.shape.Encodable := by
  have haccepted := (t.structCode_ok_iff wireCodec s).mp ⟨code, h⟩ f hf
  exact ((TypeNode.accepted_iff _ _ _).mp haccepted).2 hcodec

theorem HostsStruct.declares {s : StructType} (h : HostsStruct m t wireCodec s) :
    ∃ c transfers, Declares m t wireCodec s c transfers := by
  obtain ⟨code, hcode, hvalue, htransfer⟩ := h.accepted
  obtain ⟨c, transfers, hbodies, hfields, hunits⟩ := structCode_cases hcode
  rw [hunits] at hvalue htransfer
  exact ⟨c, transfers, hvalue, htransfer, hbodies, hfields, structCode_transferable hcode⟩

/-- A call of a generated method, with a class that declares it. -/
theorem library_call {s : StructType} {c : ValueClass} {transfers : TransferStruct}
    (h : Declares m t wireCodec s c transfers) (depth : Nat) (member : Member) (st st' : State)
    (hexec : execAll m (m.library depth) (c.body member) [] st = some ([], st')) :
    (m.library (depth + 1)).call s.name.dotted member st = some st' := by
  simp [Machine.library, h.value, hexec]

end

end InteropGen

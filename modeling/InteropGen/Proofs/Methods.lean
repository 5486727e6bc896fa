import InteropGen.Proofs.Acceptance
import InteropGen.Proofs.Bodies
import InteropGen.Scribe

/-!
# The methods of a value class

A value class has a constructor and, for each way a field can be converted, a method with
parameters of its own.

* `ValueClass.lines_eq` finds the methods in the printed class: each is its header and, in braces,
  its statements;
* `Target.structCode_methods` — the statements of a method are those of the fields, which the
  direction accepts.
-/

set_option autoImplicit false

namespace InteropGen

open CSharp

/-- The parameters of the method for a direction: how each is printed before its name, and the
variable that statements know it by. -/
def Direction.parameters (transferName : String) : Direction → List (String × Local)
  | .initial => []
  | .toTransfer | .release =>
    [("ref " ++ transferName, .wrapper), ("List<IntPtr>", .toRelease)]
  | .fromTransfer => [(transferName, .wrapper)]
  | .encode => [("CdrWriter", .writer)]
  | .decode => [("CdrReader", .reader)]

/-- The statements of a method that stand before those of the fields. -/
def Direction.opening : Direction → List Stmt
  | .release => freeReleased
  | _ => []

/-- The statements that a direction has for a field. -/
def Target.draftOf (t : Target) : Direction → (depth : Nat) → FieldView → Draft Unit
  | .toTransfer => t.toNative
  | .fromTransfer => t.fromNative
  | .release => releaseNative
  | .encode => t.encode
  | .decode => t.decode
  | .initial => t.initial

/-- The shapes of field that a direction accepts. -/
def Direction.Accepts (layout : Layout) (shape : Shape) : Direction → Prop
  | .encode | .decode => shape.Encodable
  | _ => shape.Transferable layout

namespace CSharp.ValueClass

/-- The statements of the method for a direction, if the class has it. -/
def body? (c : ValueClass) : Direction → Option (List Stmt)
  | .initial => some c.constructor
  | .toTransfer => some c.toNative
  | .fromTransfer => some c.fromNative
  | .release => some c.releaseNative
  | .encode => c.codec.map (·.1)
  | .decode => c.codec.map (·.2)

/-- What holds of all methods, one by one. -/
theorem forall_bodies (c : ValueClass) (H : List Stmt → Prop) :
    (∀ direction body, c.body? direction = some body → H body) ↔
      H c.constructor ∧ H c.toNative ∧ H c.fromNative ∧ H c.releaseNative ∧
        ∀ bodies ∈ c.codec, H bodies.1 ∧ H bodies.2 := by
  constructor
  · intro h
    refine ⟨h .initial _ rfl, h .toTransfer _ rfl, h .fromTransfer _ rfl, h .release _ rfl,
      fun bodies hbodies => ⟨?_, ?_⟩⟩
    · exact h .encode _ (Option.map_eq_some_iff.mpr ⟨bodies, hbodies, rfl⟩)
    · exact h .decode _ (Option.map_eq_some_iff.mpr ⟨bodies, hbodies, rfl⟩)
  · rintro ⟨hinitial, hto, hfrom, hrelease, hcodec⟩ direction body hbody
    cases direction with
    | initial => exact Option.some.inj hbody ▸ hinitial
    | toTransfer => exact Option.some.inj hbody ▸ hto
    | fromTransfer => exact Option.some.inj hbody ▸ hfrom
    | release => exact Option.some.inj hbody ▸ hrelease
    | encode =>
      obtain ⟨bodies, hbodies, rfl⟩ := Option.map_eq_some_iff.mp hbody
      exact (hcodec bodies hbodies).1
    | decode =>
      obtain ⟨bodies, hbodies, rfl⟩ := Option.map_eq_some_iff.mp hbody
      exact (hcodec bodies hbodies).2

/-- What is printed before the parameters of a method. -/
def headerStart (c : ValueClass) : Direction → String
  | .initial => "public " ++ identifier c.name
  | .toTransfer => "internal void ToNative"
  | .fromTransfer => "internal void FromNative"
  | .release => "internal static void ReleaseNative"
  | .encode => "public void Encode"
  | .decode => "public void Decode"

/-- The header of a method. -/
def header (stem : String) (c : ValueClass) (direction : Direction) : String :=
  c.headerStart direction ++ "(" ++
    ", ".intercalate
      ((direction.parameters c.transferName).map fun p => p.1 ++ " " ++ p.2.name stem) ++ ")"

/-- A printed method; nothing, if the class does not have it. -/
def method (stem : String) (level : Nat) (c : ValueClass) (direction : Direction) : List Line :=
  (c.body? direction).elim [] (methodLines stem level (c.header stem direction))

@[simp] theorem header_initial (stem : String) (c : ValueClass) :
    c.header stem .initial = "public " ++ identifier c.name ++ "()" := by
  apply String.toList_inj.mp
  simp [header, headerStart, Direction.parameters]

@[simp] theorem header_toTransfer (stem : String) (c : ValueClass) :
    c.header stem .toTransfer =
      "internal void ToNative(ref " ++ c.transferName ++ " wrapper, List<IntPtr> toRelease)" := by
  apply String.toList_inj.mp
  simp [header, headerStart, Direction.parameters, Local.name]

@[simp] theorem header_fromTransfer (stem : String) (c : ValueClass) :
    c.header stem .fromTransfer =
      "internal void FromNative(" ++ c.transferName ++ " wrapper)" := by
  apply String.toList_inj.mp
  simp [header, headerStart, Direction.parameters, Local.name]

@[simp] theorem header_release (stem : String) (c : ValueClass) :
    c.header stem .release =
      "internal static void ReleaseNative(ref " ++ c.transferName ++
        " wrapper, List<IntPtr> toRelease)" := by
  apply String.toList_inj.mp
  simp [header, headerStart, Direction.parameters, Local.name]

@[simp] theorem header_encode (stem : String) (c : ValueClass) :
    c.header stem .encode = "public void Encode(CdrWriter writer)" := rfl

@[simp] theorem header_decode (stem : String) (c : ValueClass) :
    c.header stem .decode = "public void Decode(CdrReader reader)" := rfl

/-- The printed class: its properties, its constructor, and two regions of methods. -/
theorem lines_eq (stem : String) (level : Nat) (c : ValueClass) :
    c.lines stem level =
      headed level ("public partial class " ++ identifier c.name)
        (c.properties.map (propertyLine (level + 1)) ++
          (if c.properties.isEmpty then [] else [Line.blank]) ++
          c.method stem (level + 1) .initial ++ [Line.blank] ++
          region (level + 1) "Marshaling"
            ([.toTransfer, .fromTransfer, .release].map (c.method stem (level + 1))) ++
          if c.codec.isSome then
            Line.blank :: region (level + 1) "Serialization"
              ([.encode, .decode].map (c.method stem (level + 1)))
          else []) := by
  unfold lines
  cases hbodies : c.codec with
  | none => simp [method, body?]
  | some bodies => simp [method, body?, hbodies]

end CSharp.ValueClass

namespace Target

variable (t : Target)

/-- A field that a direction accepts is written to its end. -/
theorem draftOf_finishes {direction : Direction} (depth : Nat) {f : FieldView}
    (h : direction.Accepts t.layout f.shape) : (t.draftOf direction depth f).Finishes := by
  cases direction with
  | toTransfer => exact (t.toNative_finishes_iff depth f).mpr h
  | fromTransfer => exact (t.fromNative_finishes_iff depth f).mpr h
  | release => exact t.releaseNative_finishes depth f h
  | encode => exact (t.encode_finishes_iff depth f).mpr h
  | decode => exact (t.decode_finishes_iff depth f).mpr h
  | initial => exact t.initial_finishes depth f h

/-- The methods of a value class are what its fields write, behind the opening of the method. -/
theorem WritesBodies.body {codec : Bool} {fields : List FieldView} {c : ValueClass}
    (h : t.WritesBodies codec fields c) {direction : Direction} {body : List Stmt}
    (hbody : c.body? direction = some body) :
    body = direction.opening ++ bodyOf fields (t.draftOf direction) := by
  have hcodec := h.codec
  cases direction with
  | toTransfer => exact (Option.some.inj hbody).symm.trans h.toNative
  | fromTransfer => exact (Option.some.inj hbody).symm.trans h.fromNative
  | release => exact (Option.some.inj hbody).symm.trans h.releaseNative
  | initial => exact (Option.some.inj hbody).symm.trans h.constructor
  | encode =>
    cases codec with
    | false => simp [ValueClass.body?, hcodec] at hbody
    | true =>
      simpa [ValueClass.body?, hcodec, eq_comm, Direction.opening, draftOf] using hbody
  | decode =>
    cases codec with
    | false => simp [ValueClass.body?, hcodec] at hbody
    | true =>
      simpa [ValueClass.body?, hcodec, eq_comm, Direction.opening, draftOf] using hbody

/-- Only a class with a codec has the methods of the codec. -/
theorem WritesBodies.codec_of_body {codec : Bool} {fields : List FieldView} {c : ValueClass}
    (h : t.WritesBodies codec fields c) {direction : Direction} {body : List Stmt}
    (hbody : c.body? direction = some body) (hcodec : direction = .encode ∨ direction = .decode) :
    codec = true := by
  cases codec with
  | true => rfl
  | false =>
    have hnone : c.codec = none := h.codec
    rcases hcodec with rfl | rfl <;> simp [ValueClass.body?, hnone] at hbody

/-- The methods of an accepted struct, and the fields that they are written for. -/
theorem structCode_methods {wireCodec : Bool} {s : StructType} {code : DeclarationCode}
    (h : t.structCode wireCodec s = .ok code) :
    ∃ c, code.units.values = some ⟨s.name.enclosing, .valueClass c⟩ ∧
      ∀ direction body, c.body? direction = some body →
        body = direction.opening ++ bodyOf (views s) (t.draftOf direction) ∧
          ∀ f ∈ views s, direction.Accepts t.layout f.shape := by
  obtain ⟨c, notes, _, hclass, _, rfl⟩ := t.structCode_parts wireCodec s code h
  have hbodies := t.valueClass_bodies _ s _ c notes hclass
  have hfields := (t.valueClass_ok_iff _ s _).mp ⟨_, hclass⟩
  refine ⟨c, rfl, fun direction body hbody => ⟨hbodies.body t hbody, fun f hf => ?_⟩⟩
  obtain ⟨htransfer, hcodec⟩ := hfields f hf
  cases direction with
  | encode => exact hcodec (hbodies.codec_of_body t hbody (.inl rfl))
  | decode => exact hcodec (hbodies.codec_of_body t hbody (.inr rfl))
  | _ => exact htransfer

end Target

end InteropGen

import InteropGen.Proofs.Blocks.Fragments

/-!
# Blocks of declarations

The lines of a declaration, from those of its members: methods with their headers, regions, fields
with their attributes and enumerators. Every block of them is closed.

* `ValueClass.nested_lines`, `TransferStruct.nested_lines` — the two declarations of a struct;
* `SourceUnit.nested_lines` — a declaration in its namespace.
-/

set_option autoImplicit false

namespace InteropGen.CSharp

/-! ## Members -/

theorem nested_methodLines {stem : String} (h : isIdentifier stem = true) (level : Nat)
    {header : String} (hheader : PlainText header) {body : List Stmt}
    (hspells : BodySpells Spelling.Sober body) (hanchored : BodyAnchored body) :
    Nested level (methodLines stem level header body) :=
  .headed hheader (nested_bodyLines h (level + 1) body hspells hanchored)

theorem nested_region (level : Nat) {title : String} (htitle : OneLine title)
    {members : List (List Line)} (h : ∀ lines ∈ members, Nested level lines) :
    Nested level (region level title members) := by
  have hstart : PlainText "#region " := ⟨by decide, by decide⟩
  have hmembers : Nested level (members.flatMap (· ++ [Line.blank])) :=
    .flatMap fun lines hlines => (h lines hlines).append (.blank (.nil level))
  have hend : PlainText "#endregion" := ⟨by decide, by decide⟩
  exact .line (hstart.append htitle) (.blank (hmembers.append (.single hend)))

theorem nested_memberLines (level : Nat) {members : List String}
    (h : ∀ m ∈ members, PlainText m) : Nested level (memberLines level members) := by
  fun_induction memberLines level members with
  | case1 => exact .nil level
  | case2 last => exact .single (h last (List.mem_singleton.mpr rfl)).identifier
  | case3 member rest _ ih =>
    obtain ⟨hmember, hrest⟩ := List.forall_mem_cons.mp h
    exact .line (hmember.identifier.append (by decide)) (ih hrest)

theorem plainText_marshalAs (a : MarshalAs) : PlainText a.text := by
  have htype : ∀ type : UnmanagedType, OneLine type.text := fun type => by cases type <;> decide
  have hscalar : PlainText "[MarshalAs(UnmanagedType." := ⟨by decide, by decide⟩
  have harray : PlainText "[MarshalAs(UnmanagedType.ByValArray, SizeConst = " :=
    ⟨by decide, by decide⟩
  cases a with
  | scalar type => exact (hscalar.append (htype type)).append (by decide)
  | byValArray length elementType =>
    have hlength := harray.append (oneLine_toString length)
    cases elementType with
    | none => exact hlength.append (by decide)
    | some type => exact ((hlength.append (by decide)).append (htype type)).append (by decide)

theorem nested_transferField (level : Nat) {f : TransferField}
    (htype : f.type.Spells Spelling.Sober) (hname : PlainText f.name) :
    Nested level (f.lines level) := by
  have hstart : PlainText "public " := ⟨by decide, by decide⟩
  have hline := (((hstart.append (Ty.oneLine_text htype)).append (by decide : OneLine " ")).append
    hname.identifier.oneLine).append (by decide : OneLine ";")
  unfold TransferField.lines
  cases f.marshalAs with
  | none => exact .single hline
  | some a => exact .line (plainText_marshalAs a) (.single hline)

/-! ## Declarations -/

/-- Every method of the class begins its statements with variables, fields and functions. -/
structure ValueClass.Anchored (c : ValueClass) : Prop where
  constructor : BodyAnchored c.constructor
  toNative : BodyAnchored c.toNative
  fromNative : BodyAnchored c.fromNative
  releaseNative : BodyAnchored c.releaseNative
  codec : ∀ bodies ∈ c.codec, BodyAnchored bodies.1 ∧ BodyAnchored bodies.2

theorem nested_propertyLine (level : Nat) {property : Ty × String}
    (htype : property.1.Spells Spelling.Sober) (hname : PlainText property.2) :
    Nested level [ValueClass.propertyLine level property] := by
  have hstart : PlainText "public " := ⟨by decide, by decide⟩
  have hblank : OneLine " " := by decide
  have haccessors : OneLine " \x7b get; set; \x7d" := by decide
  exact .single ((((hstart.append (Ty.oneLine_text htype)).append hblank).append
    hname.identifier.oneLine).append haccessors)

/-- The three methods that convert between the two objects. -/
theorem ValueClass.nested_marshaling {stem : String} (h : isIdentifier stem = true) (level : Nat)
    {c : ValueClass} (hspells : (TypeDecl.valueClass c).Spells Spelling.Sober)
    (hanchored : c.Anchored) :
    Nested level (region level "Marshaling"
      [methodLines stem level ("internal void ToNative(ref " ++ c.transferName ++
          " wrapper, List<IntPtr> toRelease)") c.toNative,
        methodLines stem level ("internal void FromNative(" ++ c.transferName ++ " wrapper)")
          c.fromNative,
        methodLines stem level ("internal static void ReleaseNative(ref " ++ c.transferName ++
          " wrapper, List<IntPtr> toRelease)") c.releaseNative]) := by
  obtain ⟨-, htransfer, -, -, htoNative, hfromNative, hrelease, -⟩ := hspells
  have htransfer : OneLine c.transferName := PlainText.oneLine htransfer
  have hto : PlainText "internal void ToNative(ref " := ⟨by decide, by decide⟩
  have hfrom : PlainText "internal void FromNative(" := ⟨by decide, by decide⟩
  have hfree : PlainText "internal static void ReleaseNative(ref " := ⟨by decide, by decide⟩
  have hlist : OneLine " wrapper, List<IntPtr> toRelease)" := by decide
  have hwrapper : OneLine " wrapper)" := by decide
  refine nested_region level (by decide) ?_
  simp only [List.forall_mem_cons, List.not_mem_nil, false_implies, implies_true, and_true]
  refine ⟨?_, ?_, ?_⟩
  · exact nested_methodLines h level ((hto.append htransfer).append hlist) htoNative
      hanchored.toNative
  · exact nested_methodLines h level ((hfrom.append htransfer).append hwrapper) hfromNative
      hanchored.fromNative
  · exact nested_methodLines h level ((hfree.append htransfer).append hlist) hrelease
      hanchored.releaseNative

/-- The two methods of the wire codec. -/
theorem nested_codec {stem : String} (h : isIdentifier stem = true) (level : Nat)
    {encode decode : List Stmt} (hencode : BodySpells Spelling.Sober encode)
    (hdecode : BodySpells Spelling.Sober decode) (hencoded : BodyAnchored encode)
    (hdecoded : BodyAnchored decode) :
    Nested level (region level "Serialization"
      [methodLines stem level "public void Encode(CdrWriter writer)" encode,
        methodLines stem level "public void Decode(CdrReader reader)" decode]) := by
  have hwriter : PlainText "public void Encode(CdrWriter writer)" := ⟨by decide, by decide⟩
  have hreader : PlainText "public void Decode(CdrReader reader)" := ⟨by decide, by decide⟩
  refine nested_region level (by decide) ?_
  simp only [List.forall_mem_cons, List.not_mem_nil, false_implies, implies_true, and_true]
  exact ⟨nested_methodLines h level hwriter hencode hencoded,
    nested_methodLines h level hreader hdecode hdecoded⟩

theorem ValueClass.nested_lines {stem : String} (h : isIdentifier stem = true) (level : Nat)
    {c : ValueClass} (hspells : (TypeDecl.valueClass c).Spells Spelling.Sober)
    (hanchored : c.Anchored) : Nested level (c.lines stem level) := by
  have hmarshaling := c.nested_marshaling h (level + 1) hspells hanchored
  obtain ⟨hname, -, hproperties, hconstructor, -, -, -, hcodec⟩ := hspells
  have hname : OneLine (identifier c.name) := (PlainText.identifier hname).oneLine
  have hclass : PlainText "public partial class " := ⟨by decide, by decide⟩
  have hpublic : PlainText "public " := ⟨by decide, by decide⟩
  have hcall : OneLine "()" := by decide
  have hblank : Nested (level + 1) [Line.blank] := .blank (.nil _)
  have hfields : Nested (level + 1) (c.properties.map (propertyLine (level + 1))) := by
    rw [List.map_eq_flatMap]
    refine .flatMap fun p hp => ?_
    exact nested_propertyLine (level + 1) (hproperties p hp).1 (hproperties p hp).2
  have hgap : Nested (level + 1) (if c.properties.isEmpty then [] else [Line.blank]) := by
    split
    · exact .nil _
    · exact hblank
  have hnew := nested_methodLines h (level + 1) ((hpublic.append hname).append hcall) hconstructor
    hanchored.constructor
  refine .headed (hclass.append hname)
    (((((hfields.append hgap).append hnew).append hblank).append hmarshaling).append ?_)
  cases hbodies : c.codec with
  | none => exact .nil _
  | some bodies =>
    obtain ⟨hencode, hdecode⟩ := hcodec bodies hbodies
    obtain ⟨hencoded, hdecoded⟩ := hanchored.codec bodies hbodies
    exact .blank (nested_codec h (level + 1) hencode hdecode hencoded hdecoded)

theorem TransferStruct.nested_lines (level : Nat) {s : TransferStruct}
    (hspells : (TypeDecl.transferStruct s).Spells Spelling.Sober) :
    Nested level (s.lines level) := by
  obtain ⟨hname, hfields⟩ := hspells
  have hlayout : PlainText "[StructLayout(LayoutKind.Sequential)]" := ⟨by decide, by decide⟩
  have hstruct : PlainText "internal struct " := ⟨by decide, by decide⟩
  have hinner : Nested (level + 1) (s.fields.flatMap (·.lines (level + 1))) :=
    .flatMap fun f hf => nested_transferField (level + 1) (hfields f hf).1 (hfields f hf).2
  exact .line hlayout (.headed (hstruct.append (PlainText.oneLine hname)) hinner)

/-- What a declaration needs so that its lines are in order: its methods begin their statements as
those of fields do, and the literal of a constant stands on one line. -/
def TypeDecl.Orderly : TypeDecl → Prop
  | .valueClass c => c.Anchored
  | .constant _ _ literal => OneLine literal
  | _ => True

/-- The blocks of a printed declaration are closed. -/
theorem TypeDecl.nested_lines {stem : String} (h : isIdentifier stem = true) (level : Nat)
    {decl : TypeDecl} (hspells : decl.Spells Spelling.Sober) (horderly : decl.Orderly) :
    Nested level (decl.lines stem level) := by
  have hpublic : PlainText "public enum " := ⟨by decide, by decide⟩
  have hinternal : PlainText "internal enum " := ⟨by decide, by decide⟩
  have hint : OneLine " : int" := by decide
  have hholder : PlainText "public static partial class Constants" := ⟨by decide, by decide⟩
  have hconst : PlainText "public const " := ⟨by decide, by decide⟩
  have hblank : OneLine " " := by decide
  have hequals : OneLine " = " := by decide
  have hend : OneLine ";" := by decide
  cases decl with
  | valueClass c => exact c.nested_lines h level hspells horderly
  | transferStruct s => exact s.nested_lines level hspells
  | valueEnum name members =>
    obtain ⟨hname, hmembers⟩ := hspells
    exact .headed (hpublic.append (PlainText.identifier hname).oneLine)
      (nested_memberLines (level + 1) hmembers)
  | transferEnum name members =>
    obtain ⟨hname, hmembers⟩ := hspells
    exact .headed ((hinternal.append (PlainText.oneLine hname)).append hint)
      (nested_memberLines (level + 1) hmembers)
  | constant type name literal =>
    obtain ⟨htype, hname, -⟩ := hspells
    have hline := ((hconst.append (Ty.oneLine_text htype)).append hblank).append
      (PlainText.identifier hname).oneLine
    exact .headed hholder (.single (((hline.append hequals).append horderly).append hend))

/-- The blocks of a printed unit are closed. -/
theorem SourceUnit.nested_lines {stem : String} (h : isIdentifier stem = true) {u : SourceUnit}
    (hspells : u.Spells Spelling.Sober) (horderly : u.decl.Orderly) : Nested 0 (u.lines stem) := by
  obtain ⟨henclosing, hdecl⟩ := hspells
  have hnamespace : PlainText "namespace " := ⟨by decide, by decide⟩
  unfold SourceUnit.lines
  cases hpath : u.enclosing with
  | none => exact TypeDecl.nested_lines h 0 hdecl horderly
  | some path =>
    have hpath : OneLine path := PlainText.oneLine (henclosing path hpath)
    exact .headed (hnamespace.append hpath) (TypeDecl.nested_lines h 1 hdecl horderly)

end InteropGen.CSharp

import InteropGen.Proofs.Writing.Tidy

/-!
# Which conversions accept a field

Every kind of code checks the fields it is asked for by itself, some by the dimensions first, some
by the element first, some not at all. A conversion accepts a field by its shape alone, on the
layout that `Target.within` finds, so that what they accept can be compared.

* `Page.completes_iff` — a conversion is written to its end exactly if the draft of the field
  finishes;
* `Target.encode_outcome` — the two directions of the wire codec end alike, also when they fail;
* `Page.conversions_agree` — the conversions compared, on every field and by every mapper.
-/

set_option autoImplicit false

namespace InteropGen

open CSharp

/-- Flat shapes are elements, and every layout has a sequence bridge for them. -/
theorem Shape.IsFlat.element {shape : Shape} (h : shape.IsFlat) :
    ∃ e : Element, shape = e.shape ∧ ∀ layout : Layout, layout.Bridges e := by
  cases shape with
  | primitive kind => exact ⟨.primitive kind, rfl, fun _ _ => nofun⟩
  | string kind => exact ⟨.string kind, rfl, fun _ _ => nofun⟩
  | _ => exact absurd h id

/-- What the wire codec accepts is accepted by the conversions of every layout. -/
theorem Shape.Encodable.transferable {shape : Shape} (h : shape.Encodable) (layout : Layout) :
    shape.Transferable layout := by
  cases shape with
  | array element dims =>
    obtain ⟨e, helement, -⟩ := h.1.element
    exact ⟨⟨e, helement⟩, h.2⟩
  | sequence element maxBound =>
    obtain ⟨e, helement, hbridges⟩ := Shape.IsFlat.element h
    exact ⟨e, helement, hbridges layout⟩
  | struct s | union u => exact absurd h id
  | _ => trivial

namespace Target

variable (t : Target)

/-- Encoding a field ends as decoding it does. -/
theorem encode_outcome (depth : Nat) (f : FieldView) :
    (t.encode depth f).outcome = (t.decode depth f).outcome := by
  unfold encode decode
  cases f.shape with
  | array element dims | sequence element maxBound =>
    simp only [Draft.outcome_bind, Draft.outcome_lift, Draft.outcome_write]
  | _ => rfl

/-- Both conversions of a field are written for one target. -/
theorem within_fromTransfer (layout : Layout) (shape : Shape) :
    t.within layout .fromTransfer shape = t.within layout .toTransfer shape := by
  cases shape <;> rfl

end Target

namespace Page

variable (mapper : Target) (f : Field) (p : Page)

/-- The conversion of a field is written to its end. -/
def Completes (direction : Direction) : Prop :=
  (convert mapper direction f p).2 = .ok ()

/-- The layout that a conversion to the transfer side is checked for. -/
def checkedLayout : Layout :=
  (mapper.within p.scribe.target.layout .toTransfer f.type.shape).layout

theorem completes_iff (direction : Direction) :
    Completes mapper f p direction ↔
      ((mapper.within p.scribe.target.layout direction f.type.shape).draftOf direction
        p.scribe.loopDepth (.of p.scribe.declaration f)).Finishes :=
  ⟨fun h => ⟨(), h⟩, fun ⟨(), h⟩ => h⟩

theorem completes_toTransfer_iff :
    Completes mapper f p .toTransfer ↔ f.type.shape.Transferable (checkedLayout mapper f p) :=
  (completes_iff mapper f p .toTransfer).trans (Target.toNative_finishes_iff ..)

theorem completes_fromTransfer_iff :
    Completes mapper f p .fromTransfer ↔ f.type.shape.Transferable (checkedLayout mapper f p) := by
  rw [completes_iff, Target.within_fromTransfer]
  exact Target.fromNative_finishes_iff ..

theorem completes_encode_iff : Completes mapper f p .encode ↔ f.type.shape.Encodable :=
  (completes_iff mapper f p .encode).trans (Target.encode_finishes_iff ..)

/-- What can be transferred on some layout can be released. -/
theorem completes_release {layout : Layout} (h : f.type.shape.Transferable layout) :
    Completes mapper f p .release :=
  (completes_iff mapper f p .release).mpr
    (Target.releaseNative_finishes { mapper with layout } p.scribe.loopDepth _ h)

/-- **Agreement of the conversions.** Let a mapper of any target write a field of any type with a
scribe in any state. The conversion to the transfer side is completed exactly if the one from it is,
and then every mapper and every scribe completes the release and finds the types, the value and the
attribute of the field, whatever declaration it belongs to. Encoding and decoding end alike, with
the same error if they fail; where encoding is completed, the conversion to the transfer side is
completed by every mapper and on every layout. -/
theorem conversions_agree :
    (Completes mapper f p .toTransfer ↔ Completes mapper f p .fromTransfer) ∧
    (Completes mapper f p .toTransfer → ∀ (t : Target) (q : Page) (declaration : String),
      Completes t f q .release ∧
      (∃ type, t.valueType ⟨declaration, f.name⟩ f.type.shape = .ok type) ∧
      (∃ value, t.defaultValue ⟨declaration, f.name⟩ f.type.shape = .ok value) ∧
      (∃ type, t.transferType (.of declaration f) = .ok type) ∧
      (∃ marshalAs, t.transferAttribute (.of declaration f) = .ok marshalAs)) ∧
    (convert mapper .encode f p).2 = (convert mapper .decode f p).2 ∧
    (Completes mapper f p .encode → ∀ (t : Target) (q : Page), Completes t f q .toTransfer) := by
  refine ⟨?_, ?_, ?_, ?_⟩
  · rw [completes_toTransfer_iff, completes_fromTransfer_iff]
  · intro hto t q declaration
    have htransfer := (completes_toTransfer_iff mapper f p).mp hto
    exact ⟨completes_release t f q htransfer, t.valueType_ok _ _ htransfer,
      t.defaultValue_ok _ _ htransfer, t.transferType_ok _ htransfer,
      t.transferAttribute_ok _ htransfer⟩
  · exact Target.encode_outcome mapper p.scribe.loopDepth (.of p.scribe.declaration f)
  · intro hencode t q
    have hencodable := (completes_encode_iff mapper f p).mp hencode
    exact (completes_toTransfer_iff t f q).mpr (hencodable.transferable _)

namespace Roster

def rank : EnumType := ⟨.ofSegments ["Roster", "Rank"], ["MATE", "MASTER"]⟩

/-- Bridged by the jagged layout only. -/
def ranks : Field :=
  ⟨"ranks", .alias ⟨.ofSegments ["Roster", "Ranks"], .sequence (.enum rank) 6⟩⟩

def names : Field := ⟨"names", .fixedArray (.fixedArray .wideString [3]) [2]⟩

/-- A mapper, and the target of a scribe. -/
def target (layout : Layout) : Target := (Generator.mk .default .empty).target layout

/-- A page in the middle of something else. -/
def page (layout : Layout) : Page :=
  .new { Scribe.new "Roster::Crew" (target layout) ⟨4, "i"⟩ with level := 2, loopDepth := 1 }

end Roster

/-- A mapper of the rectangular layout converts the sequence only for a scribe of the jagged one,
and the codec rejects it in both directions. The array is encoded, and so converted on both
layouts. -/
theorem roster_conversions :
    Completes (Roster.target .rectangular) Roster.ranks (Roster.page .jagged) .fromTransfer ∧
    (∃ type, (Roster.target .rectangular).valueType ⟨"Roster::Crew", "ranks"⟩
      Roster.ranks.type.shape = .ok type) ∧
    ¬ Completes (Roster.target .rectangular) Roster.ranks (Roster.page .rectangular)
      .fromTransfer ∧
    (convert (Roster.target .jagged) .decode Roster.ranks (Roster.page .jagged)).2 =
      .error (.nestedAggregate ⟨"Roster::Crew", "ranks"⟩ "enum Roster::Rank") ∧
    ∀ layout,
      Completes (Roster.target .jagged) Roster.names (Roster.page layout) .toTransfer := by
  obtain ⟨hboth, hothers, -, -⟩ :=
    conversions_agree (Roster.target .rectangular) Roster.ranks (Roster.page .jagged)
  obtain ⟨hneither, -⟩ :=
    conversions_agree (Roster.target .rectangular) Roster.ranks (Roster.page .rectangular)
  obtain ⟨-, -, hcodec, -⟩ :=
    conversions_agree (Roster.target .jagged) Roster.ranks (Roster.page .jagged)
  obtain ⟨-, -, -, hencoded⟩ :=
    conversions_agree (Roster.target .jagged) Roster.names (Roster.page .jagged)
  obtain ⟨-, htype, -⟩ :=
    hothers rfl (Roster.target .rectangular) (Roster.page .jagged) "Roster::Crew"
  exact ⟨hboth.mp rfl, htype, fun h => absurd (hneither.mpr h) nofun, hcodec.symm.trans rfl,
    fun layout => hencoded rfl (Roster.target .jagged) (Roster.page layout)⟩

end Page

end InteropGen

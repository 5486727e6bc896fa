import InteropGen.Proofs.Blocks.Anchors
import InteropGen.Proofs.Blocks.Literals
import InteropGen.Proofs.Blocks.Units

/-!
# Blocks of generated code

In the code of every accepted declaration all blocks are closed, in the right order, and every line
is indented by the blocks around it. What the fields are, how many dimensions they have and what
stands in a constant makes no difference.

* `Declaration.Named.sober` — names that are identifiers are never taken for a brace or a line end;
* `Target.declarationCode_orderly` — what fields and constants write is in order;
* `Generator.blocks_closed` — the text of a declaration, before its templates.
-/

set_option autoImplicit false

namespace InteropGen

open CSharp

/-! ## Names -/

theorem plainText_intercalate {segments : List String} (hne : segments ≠ [])
    (h : ∀ s ∈ segments, PlainText s) : PlainText (".".intercalate segments) := by
  refine ⟨oneLine_intercalate (by decide) fun s hs => (h s hs).oneLine, ?_⟩
  cases segments with
  | nil => exact absurd rfl hne
  | cons first rest =>
    have hfirst := (h first (List.mem_cons_self ..)).flush
    cases rest with
    | nil => simpa using hfirst
    | cons second more =>
      rw [String.intercalate_cons_cons]
      exact (hfirst.append _).append _

/-- Every name of a declaration, of the types it refers to and of its members is an identifier. -/
structure Declaration.Named (d : Declaration) : Prop where
  segments : ∀ n ∈ d.name :: d.references, n.segments ≠ []
  identifiers : ∀ n ∈ d.name :: d.references, n.Identifiers
  members : ∀ m ∈ d.members, isIdentifier m = true

namespace ScopedName

variable {n : ScopedName}

theorem Identifiers.plainText_segments (h : n.Identifiers) : ∀ s ∈ n.segments, PlainText s :=
  fun s hs => plainText_of_isIdentifier (h s hs)

theorem Identifiers.plainText_short (h : n.Identifiers) (hne : n.segments ≠ []) :
    PlainText n.short := by
  unfold short
  rw [List.getLastD_eq_getLast?, List.getLast?_eq_some_getLast hne, Option.getD_some]
  exact h.plainText_segments _ (List.getLast_mem hne)

theorem Identifiers.plainText_enclosing (h : n.Identifiers) {path : String}
    (hpath : n.enclosing = some path) : PlainText path := by
  unfold enclosing at hpath
  split at hpath
  · cases hpath
  · rename_i modules hne
    cases hpath
    exact plainText_intercalate hne fun s hs =>
      h.plainText_segments s (List.dropLast_subset _ hs)

end ScopedName

/-- Nothing that a declaration spells is taken for a line end, for indentation or for a brace. -/
theorem Declaration.Named.sober {d : Declaration} (h : d.Named) {t : Target}
    (hsuffix : OneLine t.transferSuffix) (sp : Spelling) (hsp : d.Spelled t sp) : sp.Sober := by
  have hown := List.mem_cons_self (a := d.name) (l := d.references)
  have hshort := (h.identifiers _ hown).plainText_short (h.segments _ hown)
  cases sp with
  | name n =>
    rcases hsp with rfl | hmember
    · exact hshort
    · exact plainText_of_isIdentifier (h.members n hmember)
  | path p =>
    obtain henclosing | rfl | ⟨n, hn, hpath⟩ := hsp
    · exact (h.identifiers _ hown).plainText_enclosing henclosing
    · exact hshort.append hsuffix
    · have hreference := List.mem_cons_of_mem d.name hn
      have hdotted : PlainText n.dotted := plainText_intercalate (h.segments n hreference)
        (h.identifiers n hreference).plainText_segments
      obtain rfl | rfl := hpath
      · exact hdotted
      · exact hdotted.append hsuffix

/-! ## Code of a declaration -/

theorem freeReleased_anchored : BodyAnchored freeReleased := by
  simp [freeReleased]

namespace Target

variable (t : Target)

theorem valueClass_anchored (codec : Bool) (s : StructType) (fields : List FieldView)
    (c : ValueClass) (notes : List Diagnostic) (h : t.valueClass codec s fields = .ok (c, notes)) :
    c.Anchored := by
  have haccepted := (t.valueClass_ok_iff codec s fields).mp ⟨_, h⟩
  have hbody : ∀ draft : Nat → FieldView → Draft Unit,
      (∀ f ∈ fields, BodyAnchored (draft 0 f).stmts) → BodyAnchored (bodyOf fields draft) :=
    fun draft hdraft => bodyAnchored_flatMap fields _ hdraft
  rw [(t.valueClass_written codec s fields c notes h).2]
  refine ⟨?_, ?_, ?_, ?_, fun bodies hbodies => ?_⟩
  · exact hbody _ fun f hf => t.initial_anchored 0 f (haccepted f hf).1
  · exact hbody _ fun f hf => t.toNative_anchored 0 f (haccepted f hf).1
  · exact hbody _ fun f hf => t.fromNative_anchored 0 f (haccepted f hf).1
  · exact (bodyAnchored_append _ _).mpr ⟨freeReleased_anchored,
      hbody _ fun f hf => t.releaseNative_anchored 0 f (haccepted f hf).1⟩
  · cases codec with
    | false => cases hbodies
    | true =>
      cases hbodies
      exact ⟨hbody _ fun f hf => t.encode_anchored 0 f ((haccepted f hf).2 rfl),
        hbody _ fun f hf => t.decode_anchored 0 f ((haccepted f hf).2 rfl)⟩

/-- The declarations of either side are in order. -/
theorem declarationCode_orderly (wireCodec : Bool) (d : Declaration) (code : DeclarationCode)
    (h : t.declarationCode wireCodec d = .ok code) (hnames : d.Named)
    (hsuffix : OneLine t.transferSuffix) :
    (∀ u ∈ code.units.values, u.decl.Orderly) ∧ ∀ u ∈ code.units.transfers, u.decl.Orderly := by
  cases d with
  | struct s =>
    obtain ⟨c, notes, transfers, hclass, _, rfl⟩ := t.structCode_parts wireCodec s code h
    constructor
    · rintro u ⟨⟩
      exact t.valueClass_anchored _ s _ c notes hclass
    · rintro u ⟨⟩
      trivial
  | enum e =>
    cases h
    constructor <;>
    · rintro u ⟨⟩
      trivial
  | const c =>
    obtain ⟨type, literal, hliteral, rfl⟩ := constCode_parts h
    have hsober := fun sp hsp => hnames.sober hsuffix sp hsp
    have htype := (constantLiteral_spells t c hsober type literal hliteral).1
    refine ⟨?_, by simp⟩
    rintro u ⟨⟩
    refine oneLine_constantLiteral hliteral htype fun member hmember => ?_
    exact plainText_of_isIdentifier
      (hnames.members member (by simp [Declaration.members, hmember]))
  | «alias» a =>
    cases h
    constructor <;> simp
  | union u => cases h

end Target

namespace Generator

variable (g : Generator)

/-- The text of the code itself, without templates. -/
def ownText (code : DeclarationCode) : Sides String :=
  code.units.map fun u => u.elim "" (·.text g.style)

theorem blocked_unit {u : Option SourceUnit} (hstem : isIdentifier g.settings.counterStem = true)
    (hspells : ∀ unit ∈ u, unit.Spells Spelling.Sober) (horderly : ∀ unit ∈ u, unit.decl.Orderly) :
    Blocked g.settings.indentWidth (u.elim "" (·.text g.style)) := by
  cases u with
  | none => exact blocked_renderLines _ (.nil 0)
  | some unit =>
    exact blocked_renderLines _
      (SourceUnit.nested_lines hstem (hspells unit rfl) (horderly unit rfl))

theorem counterStem_of_check {s : Settings} (h : s.check = .ok ()) :
    isIdentifier s.counterStem = true := by
  unfold Settings.check at h
  split at h
  · cases h
  · split at h
    · cases h
    · split_ifs at h
      assumption

/-- **Block structure.** Let the settings be valid, the suffix consist of characters of identifiers
and all names be identifiers. In the text of an accepted declaration, on either side of every
target and before its templates, every block is closed in its place, and every line that is not
empty is indented by the blocks around it. -/
theorem blocks_closed {d : Declaration} {out : DeclarationOutput}
    (hsettings : g.settings.check = .ok ())
    (hsuffix : ∀ c ∈ g.settings.transferSuffix.toList, Reading.isWordChar c = true)
    (hnames : d.Named) (h : g.emit d = .ok out) :
    ∀ layout ∈ g.settings.targets, ∃ code,
      (g.target layout).declarationCode g.settings.wireCodec d = .ok code ∧
      out.targets.get? layout = some
        ⟨appendUnit (g.ownText code).values (g.spliced d).values,
          appendUnit (g.ownText code).transfers (g.spliced d).transfers⟩ ∧
      Blocked g.settings.indentWidth (g.ownText code).values ∧
      Blocked g.settings.indentWidth (g.ownText code).transfers := by
  intro layout hlayout
  obtain ⟨code, hcode, htext⟩ := (g.emitted h).text layout hlayout
  have hstem := counterStem_of_check hsettings
  have hline : OneLine (g.target layout).transferSuffix := oneLine_of_isWordChar hsuffix
  obtain ⟨hvalues, htransfers⟩ := (g.target layout).declarationCode_spells _ d code hcode
    (hnames.sober hline)
  obtain ⟨hvalue, htransfer⟩ :=
    (g.target layout).declarationCode_orderly _ d code hcode hnames hline
  exact ⟨code, hcode, htext, g.blocked_unit hstem hvalues hvalue,
    g.blocked_unit hstem htransfers htransfer⟩

end Generator

namespace Canal

def gate : StructType := ⟨.ofSegments ["Canal", "Gate"], [⟨"width", .primitive .longdouble⟩], none⟩

/-- Arrays of several dimensions, and lists with and without a bound. -/
def lock : StructType :=
  ⟨.ofSegments ["Canal", "Lock"],
    [⟨"levels", .fixedArray (.primitive .wchar) [2, 3]⟩,
      ⟨"gates", .fixedArray (.struct gate) [2, 2]⟩,
      ⟨"names", .fixedArray .wideString [2, 2]⟩,
      ⟨"queue", .sequence (.struct gate) 5⟩,
      ⟨"event", .sequence .narrowString 0⟩], none⟩

/-- A text that would close a block, if its line ends were printed as they are. -/
def notice : ConstDecl :=
  ⟨.ofSegments ["Canal", "NOTICE"], .narrowString, .str "closed\n\x7d\n"⟩

def generator : Generator := ⟨.default, .empty⟩

/-- A declaration is accepted, and the blocks of its text are closed. -/
def Closes (d : Declaration) : Prop :=
  ∃ out code, generator.emit d = .ok out ∧
    out.targets.get? .jagged = some (generator.ownText code) ∧
    Blocked 4 (generator.ownText code).values ∧ Blocked 4 (generator.ownText code).transfers

end Canal

theorem canal_blocks : Canal.Closes (.struct Canal.lock) ∧ Canal.Closes (.const Canal.notice) := by
  have hcloses : ∀ d : Declaration, d.Named → (∃ out, Canal.generator.emit d = .ok out) →
      Canal.generator.spliced d = ⟨"", ""⟩ → Canal.Closes d := by
    intro d hnames hout hspliced
    obtain ⟨out, hout⟩ := hout
    obtain ⟨code, _, htext, hvalues, htransfers⟩ := Canal.generator.blocks_closed (by decide)
      (List.all_eq_true.mp rfl) hnames hout .jagged (by decide)
    refine ⟨out, code, hout, ?_, hvalues, htransfers⟩
    simpa [hspliced, appendUnit] using htext
  exact ⟨hcloses _ ⟨by decide, by decide, by decide⟩ ⟨_, rfl⟩ rfl,
    hcloses _ ⟨by decide, by decide, by decide⟩ ⟨_, rfl⟩ rfl⟩

end InteropGen

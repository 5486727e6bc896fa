import InteropGen.Proofs.OutputRuns
import InteropGen.Proofs.Precision

/-!
# What a declaration emits

The output of an accepted declaration, read off the code that it becomes for each configured layout,
and the value class of an accepted struct as a function of its fields.

* `Generator.emit_ok_iff` — a declaration is accepted exactly if every configured layout accepts it;
* `Generator.emitted` — its text for each of them, and its diagnostics, which are the same for all;
* `Target.valueClass_written` — a value class is determined by its properties and by what its fields
  write.
-/

set_option autoImplicit false

namespace InteropGen

open CSharp

/-- Nothing is added to a list by what is in it. -/
theorem eraseDups_append_of_subset {α : Type} [DecidableEq α] {known more : List α}
    (h : ∀ a ∈ more, a ∈ known) : (known ++ more).eraseDups = known.eraseDups := by
  have hnothing : more.removeAll known = [] := by
    simpa [List.removeAll] using h
  rw [List.eraseDups_append, hnothing, List.eraseDups_nil, List.append_nil]

namespace Generator

variable (g : Generator)

theorem emit_ok_iff (d : Declaration) :
    (∃ out, g.emit d = .ok out) ↔ ∀ layout ∈ g.settings.targets,
      ∃ code, (g.target layout).declarationCode g.settings.wireCodec d = .ok code := by
  refine except_foldlM_ok_iff _ _ (fun out layout => ?_) _ _
  simp only [emitLayout, except_bind_ok_iff]
  constructor
  · intro h
    obtain ⟨_, code, hcode, _⟩ := h
    exact ⟨code, hcode⟩
  · intro h
    obtain ⟨code, hcode⟩ := h
    exact ⟨_, code, hcode, rfl⟩

/-- The output of a declaration that all of the layouts accept. -/
structure Emitted (d : Declaration) (layouts : List Layout) (out : DeclarationOutput) : Prop where
  name : out.name = d.name
  text : ∀ layout ∈ layouts, ∃ code,
    (g.target layout).declarationCode g.settings.wireCodec d = .ok code ∧
      out.targets.get? layout = some (g.unitText d code)
  absent : ∀ layout, layout ∉ layouts → out.targets.get? layout = none
  diagnostics : out.diagnostics = if layouts = [] then [] else d.notes.eraseDups

/-- One more layout. -/
theorem Emitted.emitLayout {d : Declaration} {layouts : List Layout} {out next : DeclarationOutput}
    (h : g.Emitted d layouts out) (layout : Layout) (hnext : g.emitLayout d out layout = .ok next) :
    g.Emitted d (layouts ++ [layout]) next := by
  simp only [Generator.emitLayout, except_bind_ok_iff] at hnext
  obtain ⟨code, hcode, hresult⟩ := hnext
  cases hresult
  have hnotes := (g.target layout).declarationCode_notes _ d code hcode
  refine ⟨h.name, fun other hother => ?_, fun other hother => ?_, ?_⟩
  · simp only [LayoutMap.get?_insert]
    by_cases hsame : other = layout
    · rw [if_pos hsame, hsame]
      exact ⟨code, hcode, rfl⟩
    · rw [if_neg hsame]
      refine h.text other ?_
      simpa [hsame] using hother
  · simp only [LayoutMap.get?_insert]
    rw [List.mem_append, List.mem_singleton, not_or] at hother
    rw [if_neg hother.2]
    exact h.absent other hother.1
  · have hfirst : appendNew [] code.notes = d.notes.eraseDups := by
      have hstart := appendNew_eraseDups [] code.notes
      rw [List.eraseDups_nil, List.nil_append] at hstart
      rw [hstart, hnotes, eraseDups_append_of_subset fun _ ha => ha]
    have hagain : appendNew d.notes.eraseDups code.notes = d.notes.eraseDups := by
      rw [appendNew_eraseDups, hnotes, eraseDups_append_of_subset (by simp)]
    simp only [h.diagnostics, List.append_eq_nil_iff, List.cons_ne_self, and_false, if_false]
    split
    · exact hfirst
    · exact hagain

theorem emitted {d : Declaration} {out : DeclarationOutput} (h : g.emit d = .ok out) :
    g.Emitted d g.settings.targets out := by
  unfold emit at h
  generalize g.settings.targets = layouts at h
  induction layouts using List.reverseRecOn generalizing out with
  | nil =>
    cases h
    exact ⟨rfl, nofun, fun layout _ => by cases layout <;> rfl, rfl⟩
  | append_singleton before layout ih =>
    simp only [List.foldlM_append, List.foldlM_cons, List.foldlM_nil, except_bind_ok_iff] at h
    obtain ⟨previous, hprevious, next, hnext, hresult⟩ := h
    cases hresult
    exact (ih hprevious).emitLayout g layout hnext

end Generator

namespace Target

variable (t : Target)

/-- The value class with the given properties and what the fields write. -/
def writtenClass (codec : Bool) (s : StructType) (fields : List FieldView)
    (properties : List (Ty × String)) : ValueClass where
  name := s.name.short
  transferName := t.transferShortName s.name
  properties := properties
  constructor := bodyOf fields t.initial
  toNative := bodyOf fields t.toNative
  fromNative := bodyOf fields t.fromNative
  releaseNative := freeReleased ++ bodyOf fields InteropGen.releaseNative
  codec := if codec then some (bodyOf fields t.encode, bodyOf fields t.decode) else none

theorem valueClass_names (codec : Bool) (s : StructType) (fields : List FieldView)
    (c : ValueClass) (notes : List Diagnostic) (h : t.valueClass codec s fields = .ok (c, notes)) :
    c.name = s.name.short ∧ c.transferName = t.transferShortName s.name := by
  unfold valueClass at h
  simp only [except_bind_ok_iff] at h
  obtain ⟨_, _, _, _, _, _, _, _, _, _, h⟩ := h
  cases codec with
  | true =>
    simp only [if_true, except_bind_ok_iff] at h
    obtain ⟨_, _, _, _, hresult⟩ := h
    cases hresult
    exact ⟨rfl, rfl⟩
  | false =>
    cases h
    exact ⟨rfl, rfl⟩

theorem valueClass_written (codec : Bool) (s : StructType) (fields : List FieldView)
    (c : ValueClass) (notes : List Diagnostic) (h : t.valueClass codec s fields = .ok (c, notes)) :
    fields.mapM t.property = .ok c.properties ∧ c = t.writtenClass codec s fields c.properties := by
  have hbodies := t.valueClass_bodies codec s fields c notes h
  have hnames := t.valueClass_names codec s fields c notes h
  have hproperties := t.valueClass_properties codec s fields c notes h
  obtain ⟨name, transferName, properties, constructor, toNative, fromNative, release, bodies⟩ := c
  obtain ⟨rfl, rfl⟩ := hnames
  refine ⟨hproperties, ?_⟩
  unfold writtenClass
  rw [← hbodies.constructor, ← hbodies.toNative, ← hbodies.fromNative, ← hbodies.releaseNative,
    ← hbodies.codec]

end Target

/-- The text of a struct: its value class, its transfer struct, and its templates. -/
def Generator.structText (g : Generator) (s : StructType) (c : ValueClass)
    (transfers : TransferStruct) : Sides String :=
  g.unitText (.struct s) ⟨⟨some ⟨s.name.enclosing, .valueClass c⟩,
    some ⟨s.name.enclosing, .transferStruct transfers⟩⟩, []⟩

end InteropGen

import InteropGen.Proofs.Typedefs.Plain

/-!
# Typedefs and nested arrays do not show

A declaration gives the code that its plain form gives, or fails as its plain form does: an error
may describe a type as it is written, and differs in nothing else.

* `Target.structCode_congr`, `Target.constCode_congr` — declarations that agree in what code generation
  reads;
* `typedefs_transparent` — the main result.
-/

set_option autoImplicit false

namespace InteropGen

open CSharp

theorem bareResult_bind_congr {α β : Type} {step step' : Except GenError α}
    {next next' : α → Except GenError β} (hstep : bareResult step' = bareResult step)
    (hnext : ∀ a, bareResult (next' a) = bareResult (next a)) :
    bareResult (step' >>= next') = bareResult (step >>= next) := by
  have hbind : ∀ (x : Except GenError α) (k : α → Except GenError β),
      bareResult (x >>= k) = bareResult x >>= fun a => bareResult (k a) := by
    intro x k
    cases x <;> rfl
  rw [hbind, hbind, hstep, funext hnext]

theorem bareResult_foldlM_congr {α β : Type} {f f' : β → α → Except GenError β}
    (h : ∀ b a, bareResult (f' b a) = bareResult (f b a)) (items : List α) (start : β) :
    bareResult (items.foldlM f' start) = bareResult (items.foldlM f start) := by
  induction items generalizing start with
  | nil => rfl
  | cons item rest ih =>
    rw [List.foldlM_cons, List.foldlM_cons]
    exact bareResult_bind_congr (h start item) ih

/-- The union that a shape leads to has one name, bare or not. -/
theorem Shape.findUnion_bare (shape : Shape) :
    shape.bare.findUnion.map (·.name) = shape.findUnion.map (·.name) := by
  induction shape with
  | array element dims ih => exact ih
  | sequence element maxBound ih => exact ih
  | _ => rfl

/-- The views of the fields of a struct, without the texts for messages. -/
def StructOf.bareViews (s : StructType) : List FieldView :=
  (s.fields.map (FieldView.of s.name.qualified)).map FieldView.bare

/-- The first union that the fields of a struct lead to, by its name. -/
theorem findUnion_bareViews (s : StructType) :
    (s.fields.findSome? (·.type.findUnion)).map (·.name) =
      s.bareViews.findSome? fun f => f.shape.findUnion.map (·.name) := by
  unfold StructOf.bareViews
  generalize s.name.qualified = name
  induction s.fields with
  | nil => rfl
  | cons f rest ih =>
    rw [List.map_cons, List.map_cons, List.findSome?_cons, List.findSome?_cons]
    have hfirst : (FieldView.of name f).bare.shape.findUnion.map (·.name) =
        f.type.findUnion.map (·.name) := by
      rw [← f.type.findUnion_shape]
      exact Shape.findUnion_bare f.type.shape
    rw [hfirst]
    cases f.type.findUnion with
    | none => exact ih
    | some u => rfl

/-- Structs give the same code if they agree in their names, categories and bare fields. -/
theorem Target.structCode_congr (t : Target) (wireCodec : Bool) (s s' : StructType)
    (hname : s'.name = s.name) (hcategory : s'.category = s.category)
    (hviews : s'.bareViews = s.bareViews) :
    bareResult (t.structCode wireCodec s') = bareResult (t.structCode wireCodec s) := by
  have hunion := findUnion_bareViews s
  rw [← hviews, ← findUnion_bareViews s'] at hunion
  unfold structCode
  cases hs : s.fields.findSome? (·.type.findUnion) with
  | some u =>
    cases hs' : s'.fields.findSome? (·.type.findUnion) with
    | none => simp [hs, hs'] at hunion
    | some u' =>
      have hu : u.name = u'.name := by simpa [hs, hs'] using hunion
      simp only [hname, hu]
  | none =>
    cases hs' : s'.fields.findSome? (·.type.findUnion) with
    | some u' => simp [hs, hs'] at hunion
    | none =>
      have hdistinguished : s'.isDistinguished = s.isDistinguished := by
        simp [StructOf.isDistinguished, hcategory]
      simp only [hname, hdistinguished]
      refine bareResult_bind_congr ?_ fun _ => bareResult_bind_congr ?_ fun _ => rfl
      · have hvalues := t.valueClass_bare (s'.fields.map (FieldView.of s'.name.qualified))
          (wireCodec && s.isDistinguished) s' s' rfl
        rw [show List.map FieldView.bare _ = s.bareViews from hviews, StructOf.bareViews,
          t.valueClass_bare _ _ s s' hname, hname] at hvalues
        exact hvalues.symm
      · have htransfers := t.transferStruct_bare (s'.fields.map (FieldView.of s'.name.qualified))
          s' s' rfl
        rw [show List.map FieldView.bare _ = s.bareViews from hviews, StructOf.bareViews,
          t.transferStruct_bare _ s s' hname, hname] at htransfers
        exact htransfers.symm

theorem constantLiteral?_bare (shape : Shape) (value : ConstValue) :
    constantLiteral? shape.bare value = constantLiteral? shape value := by
  cases shape <;> rfl

/-- Constants give the same code if they agree in their names, values and bare types. -/
theorem Target.constCode_congr (c c' : ConstDecl) (hname : c'.name = c.name)
    (hvalue : c'.value = c.value)
    (htype : c'.type.shape.bare = c.type.shape.bare) :
    bareResult (Target.constCode c') = bareResult (Target.constCode c) := by
  have hliteral : constantLiteral? c'.type.shape c'.value =
      constantLiteral? c.type.shape c.value := by
    rw [← constantLiteral?_bare, htype, hvalue, constantLiteral?_bare]
  unfold Target.constCode
  refine bareResult_bind_congr ?_ fun _ => by rw [hname]
  unfold ConstDecl.literal
  rw [hliteral, hname, hvalue]
  cases constantLiteral? c.type.shape c.value <;> rfl

theorem plainFields_bare (declaration : String) (fields : List Field) :
    ((TypeNode.plainFields fields).map (FieldView.of declaration)).map FieldView.bare =
      (fields.map (FieldView.of declaration)).map FieldView.bare := by
  induction fields with
  | nil => rfl
  | cons f rest ih =>
    obtain ⟨name, type⟩ := f
    have hfirst : (FieldView.of declaration ⟨name, type.plain⟩).bare =
        (FieldView.of declaration ⟨name, type⟩).bare := by
      simp [FieldView.bare, FieldView.of, TypeNode.shape_plain]
    simp only [TypeNode.plainFields, TypeNode.plainField, List.map_cons, hfirst, ih]

/-- The code of a declaration is that of its plain form. -/
theorem Target.declarationCode_plain (t : Target) (wireCodec : Bool) (d : Declaration) :
    bareResult (t.declarationCode wireCodec d.plain) =
      bareResult (t.declarationCode wireCodec d) := by
  cases d with
  | struct s =>
    obtain ⟨name, fields, category⟩ := s
    exact t.structCode_congr wireCodec ⟨name, fields, category⟩
      (TypeNode.plainStruct ⟨name, fields, category⟩) rfl rfl
      (plainFields_bare name.qualified fields)
  | enum e => rfl
  | «alias» a => rfl
  | union u =>
    obtain ⟨name, branches⟩ := u
    rfl
  | const c => exact Target.constCode_congr c _ rfl rfl (TypeNode.shape_plain c.type)

namespace Generator

variable (g : Generator)

theorem unitText_plain (d : Declaration) (code : DeclarationCode) :
    g.unitText d.plain code = g.unitText d code := by
  cases d with
  | struct s =>
    obtain ⟨name, fields, category⟩ := s
    rfl
  | _ => rfl

theorem name_plain (d : Declaration) : d.plain.name = d.name := by
  cases d with
  | struct s =>
    obtain ⟨name, fields, category⟩ := s
    rfl
  | union u =>
    obtain ⟨name, branches⟩ := u
    rfl
  | _ => rfl

/-- A declaration and its plain form give one output or one error, descriptions of types apart. -/
theorem emit_plain (d : Declaration) : bareResult (g.emit d.plain) = bareResult (g.emit d) := by
  unfold emit
  rw [name_plain]
  refine bareResult_foldlM_congr (fun out layout => ?_) _ _
  exact bareResult_bind_congr ((g.target layout).declarationCode_plain _ d) fun code => by
    rw [unitText_plain]

end Generator

/-- Two results are one output, or errors that differ at most in how they describe a type. -/
def SameResult (r r' : Except GenError DeclarationOutput) : Prop :=
  (∃ out, r = .ok out ∧ r' = .ok out) ∨ ∃ e e', r = .error e ∧ r' = .error e' ∧ e.bare = e'.bare

theorem sameResult_of_bare {r r' : Except GenError DeclarationOutput}
    (h : bareResult r = bareResult r') : SameResult r r' := by
  cases r with
  | ok out =>
    cases r' with
    | ok out' => exact .inl ⟨out, rfl, by simpa using h.symm⟩
    | error e' => simp at h
  | error e =>
    cases r' with
    | ok out' => simp at h
    | error e' => exact .inr ⟨e, e', rfl, rfl, by simpa using h⟩

/-- **Typedefs and nested arrays do not show.** The plain form of a declaration has no typedef and
no array of arrays at any depth, and generates the same: the same text for every layout with the same
diagnostics, or the same error up to the description of a type. So does whatever has the same plain
form, such as the declaration with some of its typedefs replaced. -/
theorem typedefs_transparent (g : Generator) (d : Declaration) :
    d.plain.IsPlain ∧ SameResult (g.emit d) (g.emit d.plain) ∧
      ∀ d' : Declaration, d'.plain = d.plain → SameResult (g.emit d) (g.emit d') := by
  refine ⟨d.plain_isPlain, sameResult_of_bare (g.emit_plain d).symm, fun d' h => ?_⟩
  have hplain := g.emit_plain d'
  rw [h, g.emit_plain d] at hplain
  exact sameResult_of_bare hplain

namespace Barge

def row : TypeNode := .alias ⟨.ofSegments ["Barge", "Row"], .fixedArray (.primitive .i32) [3, 5]⟩

def tag : TypeNode := .alias ⟨.ofSegments ["Barge", "Tag"], .narrowString⟩

/-- Arrays of arrays through typedefs, and a typedef inside a sequence. -/
def cargo : Declaration :=
  .struct ⟨.ofSegments ["Barge", "Cargo"],
    [⟨"hold", .alias ⟨.ofSegments ["Barge", "Hold"], .fixedArray row [2]⟩⟩,
      ⟨"tags", .sequence tag 4⟩], some "topic"⟩

/-- Some of the typedefs replaced. -/
def partlyReplaced : Declaration :=
  .struct ⟨.ofSegments ["Barge", "Cargo"],
    [⟨"hold", .fixedArray row [2]⟩, ⟨"tags", .sequence .narrowString 4⟩], some "topic"⟩

def generator : Generator := ⟨.default, .empty⟩

end Barge

theorem barge_transparent :
    Barge.cargo.plain =
      .struct ⟨.ofSegments ["Barge", "Cargo"],
        [⟨"hold", .fixedArray (.primitive .i32) [2, 3, 5]⟩, ⟨"tags", .sequence .narrowString 4⟩],
        some "topic"⟩ ∧
      SameResult (Barge.generator.emit Barge.cargo) (Barge.generator.emit Barge.cargo.plain) ∧
      SameResult (Barge.generator.emit Barge.cargo) (Barge.generator.emit Barge.partlyReplaced) := by
  obtain ⟨_, hplain, hpartly⟩ := typedefs_transparent Barge.generator Barge.cargo
  exact ⟨rfl, hplain, hpartly Barge.partlyReplaced rfl⟩

end InteropGen

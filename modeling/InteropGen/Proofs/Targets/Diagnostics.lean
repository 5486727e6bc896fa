import InteropGen.Proofs.Targets.Emission

/-!
# Which diagnostics are returned

Both conversions of every target raise the diagnostics of a struct, field by field, and those that
are known already are dropped. What remains is one diagnostic for each field name, in the order of
the fields that raise any.

* `Shape.losesPrecision_iff` — the fields that raise one, by their shapes;
* `eraseDups_map` — repeated names and repeated diagnostics are the same, as all diagnostics of a
  struct have one declaration;
* `Generator.diagnostics_exact` — the diagnostics of an accepted declaration.
-/

set_option autoImplicit false

namespace InteropGen

/-- A `long double`, or a collection of them. -/
def Shape.IsExtended : Shape → Prop
  | .primitive kind | .array (.primitive kind) _ | .sequence (.primitive kind) _ =>
    kind = .longdouble
  | _ => False

theorem PrimitiveKind.isExtendedPrecision_iff (kind : PrimitiveKind) :
    kind.isExtendedPrecision = true ↔ kind = .longdouble := by
  cases kind <;> decide

theorem Shape.losesPrecision_iff (shape : Shape) :
    shape.losesPrecision = true ↔ shape.IsExtended := by
  have hkind := PrimitiveKind.isExtendedPrecision_iff
  cases shape with
  | primitive kind => exact hkind kind
  | array element dims | sequence element maxBound =>
    cases element with
    | primitive kind => exact hkind kind
    | _ => exact ⟨nofun, nofun⟩
  | _ => exact ⟨nofun, nofun⟩

instance : DecidablePred Shape.IsExtended := fun shape =>
  decidable_of_iff (shape.losesPrecision = true) shape.losesPrecision_iff

/-- Dropping repetitions commutes with a function that tells the members apart. -/
theorem eraseDups_map {α β : Type} [DecidableEq α] [DecidableEq β] {f : α → β}
    (hf : Function.Injective f) : (items : List α) → (items.map f).eraseDups = items.eraseDups.map f
  | [] => rfl
  | a :: rest => by
    have hkept : ((fun b => !b == f a) ∘ f) = fun b => !b == a := by
      funext b
      simp [hf.eq_iff]
    rw [List.map_cons, List.eraseDups_cons, List.eraseDups_cons, List.map_cons, List.filter_map,
      hkept, eraseDups_map hf]
termination_by items => items.length
decreasing_by exact Nat.lt_succ_of_le (List.length_filter_le _ _)

/-- The names of the fields with extended numbers, each where it comes first among them. -/
def StructOf.extendedFields (s : StructType) : List String :=
  ((s.fields.filter fun f => f.type.shape.IsExtended).map (·.name)).eraseDups

/-- The diagnostic of a field of the struct. -/
def StructOf.precisionLoss (s : StructType) (field : String) : Diagnostic :=
  .extendedPrecisionLoss ⟨s.name.qualified, field⟩

theorem StructOf.precisionLoss_injective (s : StructType) : Function.Injective s.precisionLoss := by
  intro a b h
  simpa [precisionLoss] using h

/-- Field by field, with its repetitions. -/
theorem precisionNotes_views (s : StructType) :
    precisionNotes (Target.views s) =
      ((s.fields.filter fun f => f.type.shape.IsExtended).map (·.name)).map s.precisionLoss := by
  have hfield : ∀ f : Field, (FieldView.of s.name.qualified f).precisionNotes =
      if f.type.shape.IsExtended then [s.precisionLoss f.name] else [] := fun f => by
    simp only [FieldView.precisionNotes, FieldView.of, Shape.losesPrecision_iff]
    rfl
  unfold precisionNotes Target.views
  induction s.fields with
  | nil => rfl
  | cons f rest ih =>
    rw [List.map_cons, List.flatMap_cons, ih, hfield]
    by_cases hextended : f.type.shape.IsExtended <;> simp [hextended]

namespace Generator

variable (g : Generator)

/-- **Diagnostics.** Let a target be configured and a declaration be accepted. A struct has one
diagnostic for each name of a field whose type is a `long double` or a collection of them, in the
order in which the names come first among these fields, and every other declaration has none. The
settings have no part in it. -/
theorem diagnostics_exact {d : Declaration} {out : DeclarationOutput}
    (htargets : g.settings.targets ≠ []) (h : g.emit d = .ok out) :
    (∀ s, d = .struct s → out.diagnostics = s.extendedFields.map s.precisionLoss) ∧
      ((∀ s, d ≠ .struct s) → out.diagnostics = []) := by
  have hnotes : out.diagnostics = d.notes.eraseDups := by
    rw [(g.emitted h).diagnostics, if_neg htargets]
  constructor
  · intro s hstruct
    calc out.diagnostics
        = (precisionNotes (Target.views s)).eraseDups := by rw [hnotes, hstruct]; rfl
      _ = s.extendedFields.map s.precisionLoss := by
          rw [precisionNotes_views, eraseDups_map s.precisionLoss_injective]
          rfl
  · intro hother
    rw [hnotes]
    cases d with
    | struct s => exact absurd rfl (hother s)
    | _ => rfl

end Generator

namespace Barometer

def pressure : TypeNode := .alias ⟨.ofSegments ["Barometer", "Pressure"], .primitive .longdouble⟩

/-- Two names are repeated; the first `count` is no extended number. -/
def log : StructType :=
  ⟨.ofSegments ["Barometer", "Log"],
    [⟨"count", .primitive .i32⟩, ⟨"peak", pressure⟩, ⟨"trend", .sequence pressure 0⟩,
      ⟨"peak", .fixedArray (.fixedArray pressure [2]) [3]⟩, ⟨"count", .primitive .longdouble⟩],
    some "topic"⟩

def generator : Generator := ⟨.default, .empty⟩

end Barometer

theorem barometer_diagnostics :
    ∃ out, Barometer.generator.emit (.struct Barometer.log) = .ok out ∧
      out.diagnostics.map Diagnostic.message =
        ["Barometer::Log.peak: long double is narrowed to double at the native boundary",
          "Barometer::Log.trend: long double is narrowed to double at the native boundary",
          "Barometer::Log.count: long double is narrowed to double at the native boundary"] := by
  obtain ⟨hstruct, -⟩ :=
    Barometer.generator.diagnostics_exact (d := .struct Barometer.log) (by decide) rfl
  refine ⟨_, rfl, ?_⟩
  rw [hstruct Barometer.log rfl]
  decide

end InteropGen

import InteropGen.Proofs.Methods

/-!
# Writings that leave no trace

A scribe carries state from one writing to the next. The lemmas say what of it a writing changes
and what of it a writing looks at, whether or not it fails.

* `KeepsPlace` — the indentation and the number of open loops are left as they are found;
* `Tidy` — besides, what is written and the result are those of a scribe that is fresh at the same
  place;
* `keepsPlace_inLoops` — loop nests, by induction on the dimensions; what is written inside them may
  fail;
* `tidy_convert` — the conversions of fields, by any mapper.
-/

set_option autoImplicit false

namespace InteropGen

open CSharp

theorem renderLines_append (indentWidth : Nat) (a b : List Line) :
    renderLines indentWidth (a ++ b) = renderLines indentWidth a ++ renderLines indentWidth b := by
  simp [renderLines]

/-- A scribe of the same declaration at the same place, which knows nothing of what was written
before. -/
def Scribe.afresh (s : Scribe) : Scribe :=
  { Scribe.new s.declaration s.target s.style with level := s.level, loopDepth := s.loopDepth }

namespace Page

/-- The writing leaves the indentation and the number of open loops as it finds them. -/
def KeepsPlace (w : Writing) : Prop :=
  ∀ p, (w p).1.scribe.level = p.scribe.level ∧ (w p).1.scribe.loopDepth = p.scribe.loopDepth

/-- What a scribe that is fresh at the same place writes on an empty page, and with what result. -/
def afresh (w : Writing) (s : Scribe) : Page × Except GenError Unit :=
  w (.new s.afresh)

/-- The writing adds to the page what a fresh scribe would write, ends as it would end, and leaves
the scribe at its place. -/
structure Tidy (w : Writing) : Prop where
  lines (p : Page) : (w p).1.lines = p.lines ++ (afresh w p.scribe).1.lines
  result (p : Page) : (w p).2 = (afresh w p.scribe).2
  scribe (p : Page) : (w p).1.scribe.afresh = p.scribe.afresh

theorem Tidy.keepsPlace {w : Writing} (h : Tidy w) : KeepsPlace w := fun p => by
  have hlevel := congrArg Scribe.level (h.scribe p)
  have hdepth := congrArg Scribe.loopDepth (h.scribe p)
  exact ⟨hlevel, hdepth⟩

theorem Tidy.style {w : Writing} (h : Tidy w) (p : Page) :
    (w p).1.scribe.style = p.scribe.style := by
  have hstyle := congrArg Scribe.style (h.scribe p)
  exact hstyle

/-- Neither the direction nor the diagnostics that a tidy writing finds have any effect on it. -/
theorem Tidy.of_update {w : Writing} (h : Tidy w) (p : Page) (direction : Direction)
    (diagnostics : List Diagnostic) :
    let q := p.update fun s => { s with direction, diagnostics }
    (w q).1.text = (w p).1.text ∧ (w q).2 = (w p).2 := by
  intro q
  have hplace : afresh w q.scribe = afresh w p.scribe := rfl
  have hlines : (w q).1.lines = (w p).1.lines := by
    rw [h.lines, h.lines, hplace]
    rfl
  have hstyle : (w q).1.scribe.style = (w p).1.scribe.style := by
    rw [h.style, h.style]
    rfl
  exact ⟨by rw [text, text, hlines, hstyle], by rw [h.result, h.result, hplace]⟩

/-- A writing is tidy if what it adds and its result are told by what a fresh scribe keeps. -/
theorem Tidy.of_place {w : Writing} (added : Scribe → List Line)
    (result : Scribe → Except GenError Unit)
    (hlines : ∀ p, (w p).1.lines = p.lines ++ added p.scribe.afresh)
    (hresult : ∀ p, (w p).2 = result p.scribe.afresh)
    (hscribe : ∀ p, (w p).1.scribe.afresh = p.scribe.afresh) : Tidy w where
  lines p := by
    rw [hlines, afresh, hlines]
    rfl
  result p := by
    rw [hresult, afresh, hresult]
    rfl
  scribe := hscribe

theorem afresh_congr (w : Writing) {s s' : Scribe} (h : s.afresh = s'.afresh) :
    afresh w s = afresh w s' := by
  rw [afresh, afresh, h]

/-! ## Statements and drafts -/

/-- A draft that depends on no more than the place is tidy. -/
theorem tidy_draft (direction : Direction) (d : Scribe → (depth : Nat) → Draft Unit)
    (h : ∀ s, d s.afresh = d s) : Tidy fun p => draft direction (d p.scribe) p := by
  refine .of_place (fun s => bodyLines s.style.counterStem s.level (d s s.loopDepth).stmts)
    (fun s => (d s s.loopDepth).outcome) (fun p => ?_) (fun p => ?_) fun _ => rfl
  · rw [h]
    rfl
  · rw [h]
    rfl

theorem KeepsPlace.after_statements {w : Writing} (h : KeepsPlace w) (stmts : List Stmt) :
    KeepsPlace fun p => w (p.statements stmts) := fun p => h (p.statements stmts)

/-- The rows of an array are allocated by statements that depend on the counters in use. -/
theorem tidy_rows (allocation : RowAllocation) :
    Tidy fun p => (p.rows allocation, .ok ()) :=
  .of_place (fun s => bodyLines s.style.counterStem s.level (allRows s.loopDepth allocation))
    (fun _ => .ok ()) (fun _ => rfl) (fun _ => rfl) fun _ => rfl

/-! ## Loops -/

/-- The page inside a new loop. -/
def enterLoop (p : Page) (bound : Expr) : Page :=
  p.pushCounter.openWith (countUpHeader p.scribe.style.counterStem p.scribe.loopDepth bound)

/-- The page after the innermost loop. -/
def leaveLoop (p : Page) : Page :=
  p.close.popCounter

section
variable (p : Page) (bound : Expr) (body : Expr → Writing)

theorem inLoop_eq :
    p.inLoop bound body =
      ((body p.nextCounter (p.enterLoop bound)).1.leaveLoop,
        (body p.nextCounter (p.enterLoop bound)).2) := rfl

@[simp] theorem enterLoop_scribe :
    (p.enterLoop bound).scribe =
      { p.scribe with level := p.scribe.level + 1, loopDepth := p.scribe.loopDepth + 1 } := rfl

@[simp] theorem leaveLoop_scribe :
    p.leaveLoop.scribe =
      { p.scribe with level := p.scribe.level - 1, loopDepth := p.scribe.loopDepth - 1 } := rfl

end

theorem keepsPlace_inLoop (bound : Expr) {body : Expr → Writing} (h : ∀ i, KeepsPlace (body i)) :
    KeepsPlace fun p => p.inLoop bound body := fun p => by
  obtain ⟨hlevel, hdepth⟩ := h p.nextCounter (p.enterLoop bound)
  simp only [enterLoop_scribe] at hlevel hdepth
  simp only [inLoop_eq, leaveLoop_scribe, hlevel, hdepth, Nat.add_sub_cancel, and_self]

/-- A loop nest keeps the place if what stands inside it does, by induction on the dimensions: the
rows that a level allocates are statements before the rest of the nest. -/
theorem keepsPlace_inLoops (allocation : Option RowAllocation) {body : List Expr → Writing}
    (h : ∀ indices, KeepsPlace (body indices)) (dims : List Nat) :
    ∀ outer, KeepsPlace (inLoops allocation body outer dims) := by
  induction dims with
  | nil => exact h
  | cons d rest ih =>
    exact fun outer => keepsPlace_inLoop (.nat d) fun i => (ih (outer ++ [i])).after_statements _

/-! ## Conversions -/

end Page

/-- The target whose code a field gets from a mapper: its own, but whether a sequence of enums can
be bridged is asked of the layout that is written for. -/
def Target.within (mapper : Target) (layout : Layout) (direction : Direction) (shape : Shape) :
    Target :=
  match direction, shape with
  | .toTransfer, .sequence _ _ | .fromTransfer, .sequence _ _ => { mapper with layout }
  | _, _ => mapper

theorem Target.within_self (t : Target) (direction : Direction) (shape : Shape) :
    t.within t.layout direction shape = t := by
  cases direction <;> cases shape <;> rfl

namespace Page

/-- What one kind of code does with a field, written by a mapper of any target. -/
def convert (mapper : Target) (direction : Direction) (f : Field) : Writing := fun p =>
  let view := FieldView.of p.scribe.declaration f
  let t := mapper.within p.scribe.target.layout direction view.shape
  draft direction (fun depth => t.draftOf direction depth view) p

/-- A scribe writes fields by the target it writes for. -/
theorem field_eq_convert (direction : Direction) (f : Field) (p : Page) :
    field direction f p = convert p.scribe.target direction f p := by
  simp only [convert, Target.within_self]
  cases direction <;> rfl

theorem tidy_convert (mapper : Target) (direction : Direction) (f : Field) :
    Tidy (convert mapper direction f) :=
  tidy_draft direction
    (fun s depth =>
      let view := FieldView.of s.declaration f
      (mapper.within s.target.layout direction view.shape).draftOf direction depth view)
    fun _ => rfl

theorem tidy_field (direction : Direction) (f : Field) : Tidy (field direction f) := by
  have h := fun s : Scribe => tidy_convert s.target direction f
  exact .of_place (fun s => (afresh (convert s.target direction f) s).1.lines)
    (fun s => (afresh (convert s.target direction f) s).2)
    (fun p => by rw [field_eq_convert, (h p.scribe).lines]; rfl)
    (fun p => by rw [field_eq_convert, (h p.scribe).result]; rfl)
    (fun p => by rw [field_eq_convert, (h p.scribe).scribe])

end Page

end InteropGen

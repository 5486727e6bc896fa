import InteropGen.Proofs.Writing.Stepwise

/-!
# Runs of writings

Writings one after the other on one page, some of which may fail. If all are tidy, each writes what
it would write by itself, so that a method is what its fields write.

* `inTurn_lines`, `inTurn_results`, `inTurn_afresh` — by induction on the run;
* `Target.method_text` — the methods of an accepted struct;
* `writings_leave_no_trace` — what a conversion, a loop and a run of conversions do.
-/

set_option autoImplicit false

namespace InteropGen

open CSharp

namespace Page

/-- Writings one after the other. One that fails does not keep those after it from writing. -/
def inTurn : List Writing → Page → Page × List (Except GenError Unit)
  | [], p => (p, [])
  | w :: rest, p =>
    let (next, result) := w p
    let (last, results) := inTurn rest next
    (last, result :: results)

section
variable {ws : List Writing} (h : ∀ w ∈ ws, Tidy w) (p : Page)
include h

theorem inTurn_afresh : (inTurn ws p).1.scribe.afresh = p.scribe.afresh := by
  induction ws generalizing p with
  | nil => rfl
  | cons w rest ih =>
    obtain ⟨hw, hrest⟩ := List.forall_mem_cons.mp h
    exact (ih hrest (w p).1).trans (hw.scribe p)

/-- The place of the scribe after one writing is that before it, so the next writes what it would
have written there. -/
theorem inTurn_lines :
    (inTurn ws p).1.lines = p.lines ++ ws.flatMap fun w => (afresh w p.scribe).1.lines := by
  induction ws generalizing p with
  | nil => simp [inTurn]
  | cons w rest ih =>
    obtain ⟨hw, hrest⟩ := List.forall_mem_cons.mp h
    have hplace : ∀ w', afresh w' (w p).1.scribe = afresh w' p.scribe := fun w' =>
      afresh_congr w' (hw.scribe p)
    calc (inTurn (w :: rest) p).1.lines
        = (inTurn rest (w p).1).1.lines := rfl
      _ = (w p).1.lines ++ rest.flatMap fun w' => (afresh w' (w p).1.scribe).1.lines :=
          ih hrest (w p).1
      _ = _ := by simp only [hplace, hw.lines, List.flatMap_cons, List.append_assoc]

theorem inTurn_results : (inTurn ws p).2 = ws.map fun w => (afresh w p.scribe).2 := by
  induction ws generalizing p with
  | nil => rfl
  | cons w rest ih =>
    obtain ⟨hw, hrest⟩ := List.forall_mem_cons.mp h
    have hplace : ∀ w', afresh w' (w p).1.scribe = afresh w' p.scribe := fun w' =>
      afresh_congr w' (hw.scribe p)
    calc (inTurn (w :: rest) p).2
        = (w p).2 :: (inTurn rest (w p).1).2 := rfl
      _ = (w p).2 :: rest.map fun w' => (afresh w' (w p).1.scribe).2 := by rw [ih hrest]
      _ = _ := by simp only [hplace, hw.result, List.map_cons]

end

/-- The text of a page whose lines are those of several fresh ones. -/
theorem renderLines_flatMap_afresh {ws : List Writing} (h : ∀ w ∈ ws, Tidy w) (s : Scribe) :
    renderLines s.style.indentWidth (ws.flatMap fun w => (afresh w s).1.lines) =
      String.join (ws.map fun w => (afresh w s).1.text) := by
  induction ws with
  | nil => rfl
  | cons w rest ih =>
    obtain ⟨hw, hrest⟩ := List.forall_mem_cons.mp h
    have hstyle : (afresh w s).1.scribe.style = s.style := hw.style (.new s.afresh)
    rw [List.flatMap_cons, renderLines_append, ih hrest, List.map_cons, String.join_cons, text,
      hstyle]

theorem inTurn_text {ws : List Writing} (h : ∀ w ∈ ws, Tidy w) (p : Page) :
    (inTurn ws p).1.text = p.text ++ String.join (ws.map fun w => (afresh w p.scribe).1.text) := by
  have hplace := congrArg Scribe.style (inTurn_afresh h p)
  have hstyle : (inTurn ws p).1.scribe.style = p.scribe.style := hplace
  rw [text, hstyle, inTurn_lines h, renderLines_append, renderLines_flatMap_afresh h, text]

end Page

theorem bodyLines_flatMap {α : Type} (stem : String) (level : Nat) (items : List α)
    (stmts : α → List Stmt) :
    bodyLines stem level (items.flatMap stmts) =
      items.flatMap fun item => bodyLines stem level (stmts item) := by
  induction items with
  | nil => rfl
  | cons item rest ih =>
    rw [List.flatMap_cons, bodyLines_append, ih, List.flatMap_cons]

open Page

/-- The lines that a fresh scribe writes for a field outside all loops. -/
theorem afresh_field (direction : Direction) (f : Field) {s : Scribe} (hdepth : s.loopDepth = 0) :
    (afresh (field direction f) s).1.lines =
        bodyLines s.style.counterStem s.level
          (s.target.draftOf direction 0 (.of s.declaration f)).stmts ∧
      (afresh (field direction f) s).2 =
        (s.target.draftOf direction 0 (.of s.declaration f)).outcome := by
  obtain ⟨declaration, target, style, level, loopDepth, before, diagnostics⟩ := s
  obtain rfl : loopDepth = 0 := hdepth
  rw [afresh, field_eq_convert]
  simp only [convert, Target.within_self]
  exact ⟨rfl, rfl⟩

namespace Target

/-- The body of a method of an accepted struct is, behind its opening, the text of its fields in
order, none of which fails. -/
theorem method_text {t : Target} {wireCodec : Bool} {s : StructType} {code : DeclarationCode}
    (h : t.structCode wireCodec s = .ok code) :
    ∃ c, code.units.values = some ⟨s.name.enclosing, .valueClass c⟩ ∧
      ∀ direction body, c.body? direction = some body →
        ∀ scribe : Scribe, scribe.declaration = s.name.qualified → scribe.target = t →
          scribe.loopDepth = 0 →
          renderLines scribe.style.indentWidth
              (bodyLines scribe.style.counterStem scribe.level body) =
            renderLines scribe.style.indentWidth
                (bodyLines scribe.style.counterStem scribe.level direction.opening) ++
              String.join (s.fields.map fun f => (afresh (field direction f) scribe).1.text) ∧
          ∀ f ∈ s.fields, (afresh (field direction f) scribe).2 = .ok () := by
  obtain ⟨c, hunit, hmethods⟩ := t.structCode_methods h
  refine ⟨c, hunit, fun direction body hbody scribe hdeclaration htarget hdepth => ?_⟩
  obtain ⟨rfl, haccepts⟩ := hmethods direction body hbody
  have hfields : ∀ f ∈ s.fields, (afresh (field direction f) scribe).2 = .ok () := fun f hf => by
    obtain ⟨u, hfinishes⟩ := t.draftOf_finishes 0
      (haccepts _ (List.mem_map_of_mem (f := FieldView.of s.name.qualified) hf))
    rw [(afresh_field direction f hdepth).2, hdeclaration, htarget, hfinishes]
  have hlines : bodyLines scribe.style.counterStem scribe.level
        (bodyOf (views s) (t.draftOf direction)) =
      (s.fields.map (field direction)).flatMap fun w => (afresh w scribe).1.lines := by
    simp only [bodyOf, views, List.flatMap_map, bodyLines_flatMap,
      (afresh_field direction _ hdepth).1, hdeclaration, htarget]
  have htidy : ∀ w ∈ s.fields.map (field direction), Tidy w := by
    simpa using fun f _ => tidy_field direction f
  refine ⟨?_, hfields⟩
  rw [bodyLines_append, renderLines_append, hlines, renderLines_flatMap_afresh htidy, List.map_map]
  rfl

end Target

/-- A conversion that a scribe is asked for, and the mapper that it is made with. -/
structure Call where
  mapper : Target
  direction : Direction
  field : Field

/-- What is written for a call. -/
def Call.writing (call : Call) : Writing :=
  convert call.mapper call.direction call.field

/-- **No trace.** A conversion writes its statements step by step, opening and closing blocks,
taking counters and giving them back. It leaves the indentation and the number of open loops as it
finds them, whether or not it fails, and so do loops, loop nests and row allocations around whatever
does. It does not look at the direction or the diagnostics, so in a run of conversions each writes
what it would write by itself, and the body of a method is, behind what the method opens with, what
the fields write in order. -/
theorem writings_leave_no_trace :
    (∀ (call : Call) (p : Page),
      let d := call.mapper.draftAt call.direction call.field p.scribe
      let start := p.update fun s => { s with direction := call.direction }
      call.writing p = ((writeBodyOn d.stmts start).warn d.notes, d.outcome)) ∧
    (∀ call : Call, KeepsPlace call.writing) ∧
    (∀ direction f, KeepsPlace (field direction f)) ∧
    (∀ bound body, (∀ i, KeepsPlace (body i)) → KeepsPlace fun p => p.inLoop bound body) ∧
    (∀ allocation body outer dims, (∀ indices, KeepsPlace (body indices)) →
      KeepsPlace (inLoops allocation body outer dims)) ∧
    (∀ allocation, KeepsPlace fun p => (p.rows allocation, .ok ())) ∧
    (∀ (call : Call) (p : Page) direction diagnostics,
      let q := p.update fun s => { s with direction, diagnostics }
      (call.writing q).1.text = (call.writing p).1.text ∧
        (call.writing q).2 = (call.writing p).2) ∧
    (∀ (calls : List Call) (p : Page),
      let writings := calls.map Call.writing
      (inTurn writings p).1.text =
          p.text ++ String.join (writings.map fun w => (afresh w p.scribe).1.text) ∧
        (inTurn writings p).2 = writings.map fun w => (afresh w p.scribe).2) ∧
    ∀ (t : Target) (wireCodec : Bool) (s : StructType) (code : DeclarationCode),
      t.structCode wireCodec s = .ok code →
      ∃ c, code.units.values = some ⟨s.name.enclosing, .valueClass c⟩ ∧
        ∀ direction body, c.body? direction = some body →
          ∀ scribe : Scribe, scribe.declaration = s.name.qualified → scribe.target = t →
            scribe.loopDepth = 0 →
            renderLines scribe.style.indentWidth
                (bodyLines scribe.style.counterStem scribe.level body) =
              renderLines scribe.style.indentWidth
                  (bodyLines scribe.style.counterStem scribe.level direction.opening) ++
                String.join (s.fields.map fun f => (afresh (field direction f) scribe).1.text) ∧
            ∀ f ∈ s.fields, (afresh (field direction f) scribe).2 = .ok () := by
  have htidy : ∀ call : Call, Tidy call.writing := fun call =>
    tidy_convert call.mapper call.direction call.field
  have hcalls : ∀ (calls : List Call), ∀ w ∈ calls.map Call.writing, Tidy w := fun calls => by
    simpa using fun call _ => htidy call
  exact ⟨fun call p => convert_eq_stepwise call.mapper call.direction call.field p,
    fun call => (htidy call).keepsPlace, fun direction f => (tidy_field direction f).keepsPlace,
    fun bound _ h => keepsPlace_inLoop bound h,
    fun allocation _ outer dims h => keepsPlace_inLoops allocation h dims outer,
    fun allocation => (tidy_rows allocation).keepsPlace,
    fun call => (htidy call).of_update,
    fun calls p => ⟨inTurn_text (hcalls calls) p, inTurn_results (hcalls calls) p⟩,
    fun t _ _ _ h => t.method_text h⟩

namespace Lantern

def lamp : StructType := ⟨.ofSegments ["Lantern", "Lamp"], [⟨"watts", .primitive .f32⟩], none⟩

def row : StructType :=
  ⟨.ofSegments ["Lantern", "Row"],
    [⟨"label", .sequence .wideString 4⟩, ⟨"lamps", .fixedArray (.struct lamp) [2, 3]⟩], none⟩

def target : Target := (Generator.mk .default .empty).target .jagged

/-- A scribe inside a class and a namespace, in the middle of something else. -/
def scribe : Scribe :=
  { Scribe.new "Lantern::Row" target ⟨4, "i"⟩ with level := 3, direction := .decode }

/-- Something that writes a line and fails. -/
def halfway : Writing := fun p =>
  (p.line "visit();", .error (.invalidDimensions ⟨"Lantern::Row", "lamps"⟩ [0]))

end Lantern

theorem lantern_no_trace :
    KeepsPlace (fun p => p.inLoop (.nat 2) fun _ => Lantern.halfway) ∧
    KeepsPlace (inLoops none (fun _ => Lantern.halfway) [] [2, 3]) ∧
    ∃ code c, Lantern.target.structCode true Lantern.row = .ok code ∧
      code.units.values = some ⟨some "Lantern", .valueClass c⟩ ∧
      renderLines 4 (bodyLines "i" 3 c.toNative) =
        String.join (Lantern.row.fields.map fun f =>
          (afresh (field .toTransfer f) Lantern.scribe).1.text) := by
  have hhalfway : KeepsPlace Lantern.halfway := fun _ => ⟨rfl, rfl⟩
  obtain ⟨-, -, -, hloop, hnest, -, -, -, hmethods⟩ := writings_leave_no_trace
  obtain ⟨c, hunit, hbodies⟩ := hmethods Lantern.target true Lantern.row _ rfl
  obtain ⟨htext, -⟩ := hbodies .toTransfer c.toNative rfl Lantern.scribe rfl rfl rfl
  exact ⟨hloop _ _ fun _ => hhalfway, hnest _ _ _ _ fun _ => hhalfway, _, c, rfl, hunit, htext⟩

end InteropGen

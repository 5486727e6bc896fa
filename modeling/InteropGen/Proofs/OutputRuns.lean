import Mathlib.Data.List.Forall2
import Mathlib.Data.List.Induction
import InteropGen.Proofs.Blame

/-!
# Runs and their buffers

What is in the buffers after any number of steps, some of which fail, and how a run over a list of
declarations sorts them.

* `joinUnits` — a buffer is the units that were appended to it, empty ones left out, with one line
  break between any two;
* `Output.get?_appendAll`, `Output.diagnostics_appendAll` — one target and the diagnostics after a
  sequence of outputs;
* `Generator.run_eq` — only the steps that succeed leave anything in the buffers;
* `Report.sorts` — every declaration is emitted, skipped or failed, in order.
-/

set_option autoImplicit false

namespace InteropGen

/-- Units of text with a line break between any two; empty units leave no trace. -/
def joinUnits (units : List String) : String :=
  "\n".intercalate (units.filter (· ≠ ""))

theorem intercalate_ne_empty (separator first : String) (rest : List String)
    (h : first ≠ "") : separator.intercalate (first :: rest) ≠ "" := by
  intro hempty
  cases rest with
  | nil => exact h (by simpa using hempty)
  | cons second rest =>
    rw [String.intercalate_cons_of_ne_nil (by simp), String.append_eq_empty_iff,
      String.append_eq_empty_iff] at hempty
    exact h hempty.1.1

/-- A buffer is empty exactly if nothing but empty units was appended. -/
theorem joinUnits_eq_empty_iff (units : List String) :
    joinUnits units = "" ↔ units.filter (· ≠ "") = [] := by
  unfold joinUnits
  constructor
  · intro h
    cases hunits : units.filter (· ≠ "") with
    | nil => rfl
    | cons first rest =>
      have hfirst : first ∈ units.filter (· ≠ "") := hunits ▸ List.mem_cons_self ..
      rw [hunits] at h
      have hne : first ≠ "" := by simpa using (List.mem_filter.mp hfirst).2
      exact absurd h (intercalate_ne_empty _ first rest hne)
  · intro h
    rw [h]
    rfl

theorem appendUnit_joinUnits (units : List String) (u : String) :
    appendUnit (joinUnits units) u = joinUnits (units ++ [u]) := by
  unfold appendUnit
  by_cases hu : u = ""
  · simp [joinUnits, hu]
  · rw [if_neg hu]
    have hlast : (units ++ [u]).filter (· ≠ "") = units.filter (· ≠ "") ++ [u] := by
      simp [hu]
    by_cases hbuffer : joinUnits units = ""
    · rw [if_pos hbuffer, joinUnits, hlast, (joinUnits_eq_empty_iff units).mp hbuffer]
      simp
    · have hne : units.filter (· ≠ "") ≠ [] := fun h =>
        hbuffer ((joinUnits_eq_empty_iff units).mpr h)
      rw [if_neg hbuffer, joinUnits, joinUnits, hlast,
        String.intercalate_append_of_ne_nil hne (by simp)]
      simp

section
variable {α : Type} [DecidableEq α]

/-- Adding to a list without repetitions keeps the first occurrence of everything. -/
theorem appendNew_eraseDups (known more : List α) :
    appendNew known.eraseDups more = (known ++ more).eraseDups := by
  unfold appendNew
  induction more generalizing known with
  | nil => simp
  | cons a rest ih =>
    have hnext : (if a ∈ known.eraseDups then known.eraseDups else known.eraseDups ++ [a]) =
        (known ++ [a]).eraseDups := by
      rw [List.eraseDups_append]
      by_cases ha : a ∈ known
      · simp [List.removeAll, ha]
      · simp [List.removeAll, ha, List.eraseDups_cons]
    rw [List.foldl_cons, hnext, ih (known ++ [a]), List.append_assoc, List.singleton_append]

end

namespace LayoutMap

variable {α : Type}

theorem get?_insert (m : LayoutMap α) (layout other : Layout) (a : α) :
    (m.insert layout a).get? other = if other = layout then some a else m.get? other := by
  cases layout <;> cases other <;> rfl

end LayoutMap

namespace Output

/-- The units that outputs hold for a target, in order. -/
def unitsFor (layout : Layout) (outputs : List DeclarationOutput) : List (Sides String) :=
  outputs.filterMap fun out => out.targets.get? layout

/-- The buffers of a target after outputs were appended. -/
def joined (units : List (Sides String)) : Sides String :=
  ⟨joinUnits (units.map (·.values)), joinUnits (units.map (·.transfers))⟩

theorem get?_new (layouts : List Layout) (layout : Layout) :
    (Output.new layouts).targets.get? layout = if layout ∈ layouts then some ⟨"", ""⟩ else none := by
  have hfold : ∀ m : LayoutMap (Sides String),
      (layouts.foldl (fun m l => m.insert l ⟨"", ""⟩) m).get? layout =
        if layout ∈ layouts then some ⟨"", ""⟩ else m.get? layout := by
    induction layouts with
    | nil => intro m; simp
    | cons first rest ih =>
      intro m
      rw [List.foldl_cons, ih, LayoutMap.get?_insert]
      by_cases hrest : layout ∈ rest <;> by_cases hfirst : layout = first <;> simp [hrest, hfirst]
  rw [Output.new, hfold LayoutMap.empty]
  cases layout <;> rfl

/-- Appending an output changes the buffers that it has units for, each on its own. -/
theorem get?_append (o : Output) (out : DeclarationOutput) (layout : Layout) :
    (o.append out).targets.get? layout =
      match out.targets.get? layout with
      | some units => some (appendSides (o.targets.get? layout) units)
      | none => o.targets.get? layout := by
  obtain ⟨name, ⟨rectangular, jagged⟩, diagnostics⟩ := out
  cases layout <;> cases rectangular <;> cases jagged <;> rfl

theorem appendSides_joined (units : List (Sides String)) (more : Sides String) :
    appendSides (some (joined units)) more = joined (units ++ [more]) := by
  simp [appendSides, joined, appendUnit_joinUnits]

/-- The buffers of a target that was there from the start or has got a unit. -/
theorem get?_appendAll (layouts : List Layout) (outputs : List DeclarationOutput) (layout : Layout) :
    (outputs.foldl append (Output.new layouts)).targets.get? layout =
      if layout ∈ layouts ∨ unitsFor layout outputs ≠ [] then some (joined (unitsFor layout outputs))
      else none := by
  induction outputs using List.reverseRecOn with
  | nil =>
    rw [List.foldl_nil, get?_new]
    simp [unitsFor, joined, joinUnits]
  | append_singleton before out ih =>
    rw [List.foldl_append, List.foldl_cons, List.foldl_nil, get?_append, ih]
    cases hunits : out.targets.get? layout with
    | none => simp [unitsFor, hunits]
    | some units =>
      have hall : unitsFor layout (before ++ [out]) = unitsFor layout before ++ [units] := by
        simp [unitsFor, hunits]
      rw [hall]
      by_cases hthere : layout ∈ layouts ∨ unitsFor layout before ≠ []
      · simp [if_pos hthere, appendSides_joined]
      · have hbefore : unitsFor layout before = [] := by
          simpa using fun h => hthere (.inr h)
        rw [if_neg hthere, hbefore, if_pos (by simp)]
        exact congrArg some (appendSides_joined [] units)

theorem diagnostics_appendAll (layouts : List Layout) (outputs : List DeclarationOutput) :
    (outputs.foldl append (Output.new layouts)).diagnostics =
      (outputs.flatMap (·.diagnostics)).eraseDups := by
  induction outputs using List.reverseRecOn with
  | nil => rfl
  | append_singleton before out ih =>
    rw [List.foldl_append, List.foldl_cons, List.foldl_nil, List.flatMap_append, ← appendNew_eraseDups,
      ← ih]
    simp [append]

end Output

/-- A step of a run: a declaration is generated, or an output that was emitted before is appended. -/
inductive RunStep where
  | generate (d : Declaration)
  | append (out : DeclarationOutput)

namespace Generator

variable (g : Generator)

/-- The buffers with a step done, or the error that it fails with. -/
def step (o : Output) : RunStep → Except GenError Output
  | .generate d => g.generate o d
  | .append out => .ok (o.append out)

/-- The buffers after a step, whether it fails or not. -/
def after (o : Output) (s : RunStep) : Output :=
  match g.step o s with
  | .ok next => next
  | .error _ => o

/-- The buffers after a run that starts with empty ones. -/
def run (layouts : List Layout) (steps : List RunStep) : Output :=
  steps.foldl g.after (Output.new layouts)

/-- What a step appends, if it succeeds. -/
def contribution? : RunStep → Option DeclarationOutput
  | .generate d => (g.emit d).toOption
  | .append out => some out

/-- What the steps that succeed append, in order. -/
def contributions (steps : List RunStep) : List DeclarationOutput :=
  steps.filterMap g.contribution?

theorem after_eq (o : Output) (s : RunStep) :
    g.after o s = (g.contribution? s).elim o o.append := by
  cases s with
  | append out => rfl
  | generate d =>
    simp only [after, step, generate, contribution?]
    cases g.emit d with
    | error e => rfl
    | ok out => rfl

/-- Steps that fail leave no trace. -/
theorem run_eq (layouts : List Layout) (steps : List RunStep) :
    g.run layouts steps = (g.contributions steps).foldl Output.append (Output.new layouts) := by
  unfold run contributions
  generalize Output.new layouts = start
  induction steps generalizing start with
  | nil => rfl
  | cons s rest ih =>
    rw [List.foldl_cons, ih, after_eq]
    cases hs : g.contribution? s <;> simp [hs]

/-- A declaration that fails for one of the layouts fails. -/
theorem emit_error_of_layout (d : Declaration) (layout : Layout)
    (hlayout : layout ∈ g.settings.targets) (e : GenError)
    (h : (g.target layout).declarationCode g.settings.wireCodec d = .error e) :
    ∃ e', g.emit d = .error e' := by
  unfold emit
  generalize (⟨d.name, .empty, []⟩ : DeclarationOutput) = start
  generalize g.settings.targets = layouts at hlayout
  induction layouts generalizing start with
  | nil => cases hlayout
  | cons first rest ih =>
    rw [List.foldlM_cons]
    cases hfirst : g.emitLayout d start first with
    | error e' => exact ⟨e', rfl⟩
    | ok next =>
      rcases List.mem_cons.mp hlayout with rfl | hrest
      · simp [emitLayout, h, bind, Except.bind] at hfirst
      · exact ih next hrest

/-- What becomes of a declaration in a run. -/
inductive Verdict where
  | emitted | skipped | failed
  deriving DecidableEq, Repr

/-- Typedefs are skipped, and what cannot be generated fails. -/
def verdict (d : Declaration) : Verdict :=
  match g.emit d with
  | .error _ => .failed
  | .ok _ => if d.isAlias then .skipped else .emitted

/-- A typedef is generated for every layout, as nothing. -/
theorem emit_alias (a : AliasType) : ∃ out, g.emit (.alias a) = .ok out := by
  unfold emit
  generalize (⟨_, .empty, []⟩ : DeclarationOutput) = start
  induction g.settings.targets generalizing start with
  | nil => exact ⟨start, rfl⟩
  | cons first rest ih =>
    rw [List.foldlM_cons]
    exact ih _

theorem verdict_eq_skipped_iff (d : Declaration) : g.verdict d = .skipped ↔ d.isAlias = true := by
  unfold verdict
  constructor
  · intro h
    split at h
    · cases h
    · split at h
      · assumption
      · cases h
  · intro h
    cases d with
    | «alias» a =>
      obtain ⟨out, hout⟩ := g.emit_alias a
      rw [hout]
      rfl
    | _ => cases h

theorem verdict_eq_failed_iff (d : Declaration) :
    g.verdict d = .failed ↔ ∃ e, g.emit d = .error e := by
  unfold verdict
  cases hemit : g.emit d with
  | error e => simp
  | ok out => cases d.isAlias <;> simp

end Generator

namespace Report

variable (g : Generator)

/-- The qualified names of the declarations with a verdict, in order. -/
def named (verdict : Generator.Verdict) (declarations : List Declaration) : List String :=
  (declarations.filter fun d => g.verdict d = verdict).map (·.name.qualified)

/-- A report over declarations lists each by its verdict. -/
structure Sorts (declarations : List Declaration) (r : Report) : Prop where
  output : r.output = g.run g.settings.targets (declarations.map .generate)
  emitted : r.emitted = named g .emitted declarations
  skipped : r.skipped = named g .skipped declarations
  failures : List.Forall₂ (fun d e => g.emit d = .error e)
    (declarations.filter fun d => g.verdict d = .failed) r.failures

/-- One more declaration. -/
theorem Sorts.add {declarations : List Declaration} {r : Report} (h : Sorts g declarations r)
    (d : Declaration) : Sorts g (declarations ++ [d]) (r.add g d) := by
  have hrun : g.run g.settings.targets ((declarations ++ [d]).map .generate) =
      g.after r.output (.generate d) := by
    rw [h.output, Generator.run, Generator.run, List.map_append, List.foldl_append]
    rfl
  cases hemit : g.emit d with
  | error e =>
    have hverdict : g.verdict d = .failed := (g.verdict_eq_failed_iff d).mpr ⟨e, hemit⟩
    have hadd : r.add g d = { r with failures := r.failures ++ [e] } := by
      simp [Report.add, Generator.generate, hemit, Except.map]
    rw [hadd]
    refine ⟨?_, ?_, ?_, ?_⟩
    · rw [hrun, Generator.after_eq, Generator.contribution?, hemit]
      rfl
    · simp [named, hverdict, h.emitted]
    · simp [named, hverdict, h.skipped]
    · rw [List.filter_append]
      simpa [hverdict] using List.rel_append h.failures (.cons hemit .nil)
  | ok out =>
    have houtput : g.after r.output (.generate d) = r.output.append out := by
      rw [Generator.after_eq, Generator.contribution?, hemit]
      rfl
    by_cases halias : d.isAlias = true
    · have hverdict : g.verdict d = .skipped := (g.verdict_eq_skipped_iff d).mpr halias
      have hadd : r.add g d =
          { r with output := r.output.append out, skipped := r.skipped ++ [d.name.qualified] } := by
        simp [Report.add, Generator.generate, hemit, Except.map, halias]
      rw [hadd]
      refine ⟨?_, ?_, ?_, ?_⟩
      · rw [hrun, houtput]
      · simp [named, hverdict, h.emitted]
      · simp [named, hverdict, h.skipped]
      · simpa [hverdict] using h.failures
    · have hverdict : g.verdict d = .emitted := by
        simp [Generator.verdict, hemit, halias]
      have hadd : r.add g d =
          { r with output := r.output.append out, emitted := r.emitted ++ [d.name.qualified] } := by
        simp [Report.add, Generator.generate, hemit, Except.map, halias]
      rw [hadd]
      refine ⟨?_, ?_, ?_, ?_⟩
      · rw [hrun, houtput]
      · simp [named, hverdict, h.emitted]
      · simp [named, hverdict, h.skipped]
      · simpa [hverdict] using h.failures

theorem sorts (declarations : List Declaration) :
    Sorts g declarations (g.generateAll declarations) := by
  unfold Generator.generateAll
  induction declarations using List.reverseRecOn with
  | nil => exact ⟨rfl, rfl, rfl, .nil⟩
  | append_singleton before d ih =>
    rw [List.foldl_append]
    exact ih.add g d

/-- The declarations that can be generated. -/
def kept (declarations : List Declaration) : List Declaration :=
  declarations.filter fun d => g.verdict d ≠ .failed

theorem named_kept (declarations : List Declaration) (verdict : Generator.Verdict)
    (h : verdict ≠ .failed) :
    named g verdict (kept g declarations) = named g verdict declarations := by
  unfold named kept
  rw [List.filter_filter]
  congr 1
  refine List.filter_congr fun d _ => ?_
  by_cases hd : g.verdict d = verdict
  · simp [hd, h]
  · simp [hd]

/-- What fails contributes nothing. -/
theorem run_kept (layouts : List Layout) (declarations : List Declaration) :
    g.run layouts ((kept g declarations).map .generate) =
      g.run layouts (declarations.map .generate) := by
  rw [g.run_eq, g.run_eq]
  congr 1
  unfold Generator.contributions
  induction declarations with
  | nil => rfl
  | cons d rest ih =>
    unfold kept at ih ⊢
    cases hemit : g.emit d with
    | error e =>
      have hverdict := (g.verdict_eq_failed_iff d).mpr ⟨e, hemit⟩
      simpa [hverdict, Generator.contribution?, hemit, Except.toOption] using ih
    | ok out =>
      have hverdict : g.verdict d ≠ .failed := by
        simp [g.verdict_eq_failed_iff, hemit]
      simpa [hverdict, Generator.contribution?, hemit, Except.toOption] using ih

/-- Leaving out what fails changes nothing else. -/
theorem generateAll_kept (declarations : List Declaration) :
    g.generateAll (kept g declarations) = { g.generateAll declarations with failures := [] } := by
  have hall := sorts g declarations
  have hkept := sorts g (kept g declarations)
  have hfailures : (g.generateAll (kept g declarations)).failures = [] := by
    have hnone : (kept g declarations).filter (fun d => g.verdict d = .failed) = [] := by
      simp [kept]
    have hlist := hkept.failures
    rw [hnone] at hlist
    exact List.forall₂_nil_left_iff.mp hlist
  generalize g.generateAll (kept g declarations) = r at hkept hfailures ⊢
  obtain ⟨output, emitted, skipped, failures⟩ := r
  simp only [Report.mk.injEq]
  refine ⟨?_, ?_, ?_, hfailures⟩
  · rw [hall.output, ← run_kept]
    exact hkept.output
  · rw [hall.emitted, ← named_kept g declarations .emitted (by decide)]
    exact hkept.emitted
  · rw [hall.skipped, ← named_kept g declarations .skipped (by decide)]
    exact hkept.skipped

theorem named_skipped (declarations : List Declaration) :
    named g .skipped declarations =
      (declarations.filter (·.isAlias)).map (·.name.qualified) := by
  unfold named
  congr 1
  refine List.filter_congr fun d _ => ?_
  simp [g.verdict_eq_skipped_iff]

/-- Every declaration has one verdict. -/
theorem Sorts.total {declarations : List Declaration} {r : Report} (h : Sorts g declarations r) :
    r.emitted.length + r.skipped.length + r.failures.length = declarations.length := by
  rw [h.emitted, h.skipped, ← h.failures.length_eq]
  unfold named
  rw [List.length_map, List.length_map]
  clear h
  induction declarations with
  | nil => rfl
  | cons d rest ih =>
    cases hd : g.verdict d <;> simp [hd] <;> omega

end Report

/-- **Buffers over runs.** After any steps, what each target's buffers hold is the units of the
steps that succeeded, in order; the diagnostics are listed once; a declaration that fails for any of
the configured layouts leaves everything as it was; and a run over a list of declarations sorts
them, in order, into those emitted, the typedefs and the failures, which nothing else depends on. -/
theorem output_runs (g : Generator) :
    (∀ layouts steps layout,
      (g.run layouts steps).targets.get? layout =
        if layout ∈ layouts ∨ Output.unitsFor layout (g.contributions steps) ≠ [] then
          some (Output.joined (Output.unitsFor layout (g.contributions steps)))
        else none) ∧
    (∀ layouts steps,
      (g.run layouts steps).diagnostics =
        ((g.contributions steps).flatMap (·.diagnostics)).eraseDups) ∧
    (∀ o d layout e, layout ∈ g.settings.targets →
      (g.target layout).declarationCode g.settings.wireCodec d = .error e →
      (∃ e', g.step o (.generate d) = .error e') ∧ g.after o (.generate d) = o) ∧
    ∀ declarations,
      (g.generateAll declarations).output = g.run g.settings.targets (declarations.map .generate) ∧
      (g.generateAll declarations).emitted = Report.named g .emitted declarations ∧
      (g.generateAll declarations).skipped =
        (declarations.filter (·.isAlias)).map (·.name.qualified) ∧
      List.Forall₂ (fun d e => g.emit d = .error e ∧ e.declaration = d.name.qualified)
        (declarations.filter fun d => g.verdict d = .failed) (g.generateAll declarations).failures ∧
      (g.generateAll declarations).emitted.length + (g.generateAll declarations).skipped.length +
        (g.generateAll declarations).failures.length = declarations.length ∧
      g.generateAll (Report.kept g declarations) =
        { g.generateAll declarations with failures := [] } := by
  refine ⟨fun layouts steps layout => ?_, fun layouts steps => ?_,
    fun o d layout e hlayout hcode => ?_, fun declarations => ?_⟩
  · rw [g.run_eq, Output.get?_appendAll]
  · rw [g.run_eq, Output.diagnostics_appendAll]
  · obtain ⟨e', hemit⟩ := g.emit_error_of_layout d layout hlayout e hcode
    refine ⟨⟨e', ?_⟩, ?_⟩
    · rw [Generator.step, Generator.generate, hemit]
      rfl
    · rw [g.after_eq, Generator.contribution?, hemit]
      rfl
  · have h := Report.sorts g declarations
    refine ⟨h.output, h.emitted, ?_, ?_, h.total, Report.generateAll_kept g declarations⟩
    · rw [h.skipped, Report.named_skipped]
    · exact h.failures.imp fun d e hemit => ⟨hemit, g.emit_blames d e hemit⟩

namespace Ferry

def mode : EnumType := ⟨.ofSegments ["Ferry", "Mode"], ["DOCKED", "UNDERWAY"]⟩

/-- A struct that only one of the layouts can marshal. -/
def log : StructType := ⟨.ofSegments ["Ferry", "Log"], [⟨"modes", .sequence (.enum mode) 0⟩], none⟩

def clock : AliasType := ⟨.ofSegments ["Ferry", "Clock"], .primitive .i64⟩

/-- The layout that cannot comes last. -/
def generator : Generator :=
  ⟨{ Settings.default with targets := [.jagged, .rectangular] }, .empty⟩

end Ferry

theorem ferry_output_runs :
    (∃ code, (Ferry.generator.target .jagged).declarationCode true (.struct Ferry.log) = .ok code) ∧
    (∀ o, Ferry.generator.after o (.generate (.struct Ferry.log)) = o) ∧
    (Ferry.generator.generateAll [.struct Ferry.log, .alias Ferry.clock, .enum Ferry.mode]).emitted =
      ["Ferry::Mode"] := by
  obtain ⟨_, _, hfailing, hreport⟩ := output_runs Ferry.generator
  refine ⟨⟨_, rfl⟩, fun o => ?_, ?_⟩
  · exact (hfailing o (.struct Ferry.log) .rectangular _ (by decide) rfl).2
  · rw [(hreport _).2.1]
    decide

end InteropGen

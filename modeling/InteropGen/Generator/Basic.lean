import InteropGen.Generator.Declaration
import InteropGen.Generator.Output
import InteropGen.Settings.Basic
import InteropGen.Template

/-!
# The generator

One run over a list of declarations. A declaration is generated for every configured layout before
anything is added to the buffers, so that one which fails on any of them leaves no trace; the run
goes on with the next.
-/

set_option autoImplicit false

namespace InteropGen

open CSharp

/-- A generator: its settings and the template texts. -/
structure Generator where
  settings : Settings
  templates : Templates

namespace Generator

/-- The target for a layout under the settings. -/
def target (g : Generator) (layout : Layout) : Target where
  layout := layout
  platform := g.settings.platform
  transferSuffix := g.settings.transferSuffix

/-- How code is printed under the settings. -/
def style (g : Generator) : Style where
  indentWidth := g.settings.indentWidth
  counterStem := g.settings.counterStem

/-- The templates that follow the code of a declaration: those of a struct's category, with its
names filled in. -/
def spliced (g : Generator) : Declaration → Sides String
  | .struct s =>
    match s.category.bind g.templates.get? with
    | some texts =>
      let pairs := Template.substitutions s.name g.settings.sequenceSuffix
      texts.map fun text => text.elim "" (Template.splice · pairs)
    | none => ⟨"", ""⟩
  | _ => ⟨"", ""⟩

/-- The printed code of a declaration, and after it its templates. -/
def unitText (g : Generator) (d : Declaration) (code : DeclarationCode) : Sides String :=
  let units := code.units.map fun u => u.elim "" (·.text g.style)
  let extra := g.spliced d
  ⟨appendUnit units.values extra.values, appendUnit units.transfers extra.transfers⟩

/-- The output of a declaration with one more layout. -/
def emitLayout (g : Generator) (d : Declaration) (out : DeclarationOutput) (layout : Layout) :
    Except GenError DeclarationOutput := do
  let code ← (g.target layout).declarationCode g.settings.wireCodec d
  return { out with
    targets := out.targets.insert layout (g.unitText d code)
    diagnostics := appendNew out.diagnostics code.notes }

/-- Everything generated for a declaration, for the configured layouts in order. -/
def emit (g : Generator) (d : Declaration) : Except GenError DeclarationOutput :=
  g.settings.targets.foldlM (g.emitLayout d) ⟨d.name, .empty, []⟩

/-- The buffers with a declaration added, or the error that keeps it out. -/
def generate (g : Generator) (o : Output) (d : Declaration) : Except GenError Output :=
  (g.emit d).map o.append

end Generator

/-- The result of a run. -/
structure Report where
  output : Output
  /-- The names of declarations that were generated. -/
  emitted : List String
  /-- The names of typedefs, which produce nothing. -/
  skipped : List String
  failures : List GenError

namespace Report

/-- Whether no declaration failed. -/
def isSuccess (r : Report) : Bool :=
  r.failures.isEmpty

/-- The report with one more declaration. -/
def add (g : Generator) (r : Report) (d : Declaration) : Report :=
  match g.generate r.output d with
  | .error e => { r with failures := r.failures ++ [e] }
  | .ok output =>
    if d.isAlias then { r with output, skipped := r.skipped ++ [d.name.qualified] }
    else { r with output, emitted := r.emitted ++ [d.name.qualified] }

/-- The line of sixty signs that frames a summary. -/
def rule : String :=
  String.ofList (List.replicate 60 '=')

/-- The summary that is printed after a run. -/
def summary (r : Report) : String :=
  "\n" ++ rule ++ "\n  Marshaling Generation Report\n" ++ rule ++ "\n\n" ++
    "  [OK]   Emitted:     " ++ toString r.emitted.length ++ " declarations\n" ++
    "  [--]   Skipped:     " ++ toString r.skipped.length ++ " aliases\n" ++
    "  [WARN] Diagnostics: " ++ toString r.output.diagnostics.length ++ "\n" ++
    "  " ++ (if r.isSuccess then "[OK]  " else "[FAIL]") ++ " Failed:      " ++
    toString r.failures.length ++ "\n" ++
    String.join (r.failures.map fun e => "    - " ++ e.message ++ "\n") ++
    "\n" ++ rule ++ "\n"

end Report

/-- A run over declarations, in order and past failures. -/
def Generator.generateAll (g : Generator) (declarations : List Declaration) : Report :=
  declarations.foldl (Report.add g) ⟨Output.new g.settings.targets, [], [], []⟩

end InteropGen

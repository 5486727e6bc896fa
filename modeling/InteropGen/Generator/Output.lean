import InteropGen.Catalog
import InteropGen.Diagnostic
import InteropGen.ScopedName

/-!
# Output buffers

The text that runs of the generator collect, one buffer per layout and side. Units of text are
separated by one empty line; empty units leave no trace.
-/

set_option autoImplicit false

namespace InteropGen

/-- At most one thing per layout. -/
structure LayoutMap (α : Type) where
  rectangular : Option α
  jagged : Option α
  deriving DecidableEq, Repr, Inhabited

namespace LayoutMap

variable {α : Type}

def empty : LayoutMap α := ⟨none, none⟩

def get? (m : LayoutMap α) : Layout → Option α
  | .rectangular => m.rectangular
  | .jagged => m.jagged

def insert (m : LayoutMap α) (layout : Layout) (a : α) : LayoutMap α :=
  match layout with
  | .rectangular => { m with rectangular := some a }
  | .jagged => { m with jagged := some a }

/-- What there is, in the order of the layouts. -/
def toList (m : LayoutMap α) : List (Layout × α) :=
  Layout.all.filterMap fun layout => (m.get? layout).map (layout, ·)

end LayoutMap

/-- A buffer with a unit after what it holds. -/
def appendUnit (buffer unit : String) : String :=
  if unit = "" then buffer
  else if buffer = "" then unit
  else buffer ++ "\n" ++ unit

/-- Everything generated for one declaration. -/
structure DeclarationOutput where
  name : ScopedName
  targets : LayoutMap (Sides String)
  diagnostics : List Diagnostic
  deriving DecidableEq

/-- Whether a declaration produced no text. -/
def DeclarationOutput.isEmpty (d : DeclarationOutput) : Bool :=
  d.targets.toList.all fun (_, s) => s.values = "" && s.transfers = ""

/-- The buffers of a run and the diagnostics so far, each listed once. -/
structure Output where
  targets : LayoutMap (Sides String)
  diagnostics : List Diagnostic
  deriving DecidableEq

namespace Output

/-- Empty buffers for the given layouts. -/
def new (layouts : List Layout) : Output where
  targets := layouts.foldl (fun m l => m.insert l ⟨"", ""⟩) .empty
  diagnostics := []

/-- A pair of buffers, empty if there is none yet, with the units of a declaration. -/
def appendSides (buffers : Option (Sides String)) (units : Sides String) : Sides String :=
  let buffers := buffers.getD ⟨"", ""⟩
  ⟨appendUnit buffers.values units.values, appendUnit buffers.transfers units.transfers⟩

/-- The buffers with everything generated for a declaration. -/
def append (o : Output) (d : DeclarationOutput) : Output where
  targets := d.targets.toList.foldl
    (fun m (layout, units) => m.insert layout (appendSides (m.get? layout) units)) o.targets
  diagnostics := appendNew o.diagnostics d.diagnostics

end Output

/-- The first lines of every document. -/
def documentHead : String :=
  "// Generated by hdds-marshal-gen. Do not edit.\n"

/-- What precedes the declarations of a document. -/
def preambles : Sides String where
  values := documentHead ++ "using System;\nusing System.Collections.Generic;\n" ++
    "using System.Runtime.InteropServices;\nusing Hdds.Cdr;\n"
  transfers := documentHead ++ "using System;\nusing System.Runtime.InteropServices;\n"

/-- The complete files of a pair of buffers. -/
def documents (buffers : Sides String) : Sides String where
  values := preambles.values ++ "\n" ++ buffers.values
  transfers := preambles.transfers ++ "\n" ++ buffers.transfers

end InteropGen

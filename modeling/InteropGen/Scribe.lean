import InteropGen.Catalog
import InteropGen.Conversion.FromNative
import InteropGen.Conversion.Initial
import InteropGen.Conversion.Release
import InteropGen.Conversion.ToNative
import InteropGen.WireCodec

/-!
# Writing with a scribe

A scribe writes the code of one declaration line by line: it knows how deep it is indented, how
many loops are open, what it is writing at the moment, and which diagnostics have come up. Callers
mix lines of their own with loops and with the conversions of fields, on a page that the scribe
writes on.

* Loops are closed, and their counters given back, also when what is written inside them fails.
* A conversion writes at the indentation and counter depth that it finds and leaves both as they
  were; it does not look at the direction or the diagnostics.
-/

set_option autoImplicit false

namespace InteropGen

open CSharp

/-- What is being written. -/
inductive Direction where
  | toTransfer | fromTransfer | release | encode | decode | initial
  deriving DecidableEq, Repr

/-- The state of the writing of one declaration. -/
structure Scribe where
  declaration : String
  target : Target
  style : Style
  /-- The indentation level. -/
  level : Nat
  /-- The number of open loops, which is the number of the next counter. -/
  loopDepth : Nat
  direction : Direction
  diagnostics : List Diagnostic

/-- A scribe at the start of a declaration. -/
def Scribe.new (declaration : String) (target : Target) (style : Style) : Scribe where
  declaration := declaration
  target := target
  style := style
  level := 0
  loopDepth := 0
  direction := .toTransfer
  diagnostics := []

/-- A scribe and the lines it has written. -/
structure Page where
  scribe : Scribe
  lines : List Line

/-- Something to write, which may fail halfway. -/
abbrev Writing := Page → Page × Except GenError Unit

namespace Page

/-- An empty page. -/
def new (s : Scribe) : Page := ⟨s, []⟩

/-- The text of a page. -/
def text (p : Page) : String :=
  renderLines p.scribe.style.indentWidth p.lines

/-- The page with its scribe changed. -/
def update (p : Page) (change : Scribe → Scribe) : Page :=
  { p with scribe := change p.scribe }

/-- Writes a line at the current indentation. -/
def line (p : Page) (text : String) : Page :=
  { p with lines := p.lines ++ [⟨p.scribe.level, text⟩] }

/-- Writes statements at the current indentation. -/
def statements (p : Page) (stmts : List Stmt) : Page :=
  { p with
    lines := p.lines ++ bodyLines p.scribe.style.counterStem p.scribe.level stmts }

/-- Opens a block. -/
def openBlock (p : Page) : Page :=
  (p.line "\x7b").update fun s => { s with level := s.level + 1 }

/-- Opens a block after a header. -/
def openWith (p : Page) (header : String) : Page :=
  (p.line header).openBlock

/-- Closes a block with a line of one's own. At the margin the indentation stays as it is. -/
def closeWith (p : Page) (closing : String) : Page :=
  (p.update fun s => { s with level := s.level - 1 }).line closing

/-- Closes a block. -/
def close (p : Page) : Page :=
  p.closeWith "\x7d"

/-- The counter that the next loop gets. -/
def nextCounter (p : Page) : Expr :=
  counter p.scribe.loopDepth

/-- Takes a counter. -/
def pushCounter (p : Page) : Page :=
  p.update fun s => { s with loopDepth := s.loopDepth + 1 }

/-- Gives a counter back, if any is taken. -/
def popCounter (p : Page) : Page :=
  p.update fun s => { s with loopDepth := s.loopDepth - 1 }

/-- Adds diagnostics that are not listed yet. -/
def warn (p : Page) (notes : List Diagnostic) : Page :=
  p.update fun s => { s with diagnostics := appendNew s.diagnostics notes }

/-- Writes inside a counted loop. -/
def inLoop (p : Page) (bound : Expr) (body : Expr → Writing) : Page × Except GenError Unit :=
  let header := countUpHeader p.scribe.style.counterStem p.scribe.loopDepth bound
  let (inner, result) := body p.nextCounter (p.pushCounter.openWith header)
  (inner.close.popCounter, result)

/-- Writes inside a loop nest, `outer` being the counters of the loops around; the rows that a
level needs are allocated at the start of its loop. -/
def inLoops (rows : Option RowAllocation) (body : List Expr → Writing) (outer : List Expr) :
    (dims : List Nat) → Writing
  | [], p => body outer p
  | d :: rest, p =>
    p.inLoop (.nat d) fun i p =>
      let counters := outer ++ [i]
      inLoops rows body counters rest (p.statements (RowAllocation.atLevel rows counters))

/-- Allocates every row of an array. -/
def rows (p : Page) (rows : RowAllocation) : Page :=
  p.statements (allRows p.scribe.loopDepth rows)

/-- Writes a draft, as far as it goes. -/
def draft (direction : Direction) (draft : (depth : Nat) → Draft Unit) : Writing := fun p =>
  let d := draft p.scribe.loopDepth
  (((p.update fun s => { s with direction }).statements d.stmts).warn d.notes, d.outcome)

/-- Writes what one kind of code does with a field. -/
def field (direction : Direction) (f : Field) : Writing := fun p =>
  let t := p.scribe.target
  let view := FieldView.of p.scribe.declaration f
  draft direction
    (fun depth =>
      match direction with
      | .toTransfer => t.toNative depth view
      | .fromTransfer => t.fromNative depth view
      | .release => releaseNative depth view
      | .encode => t.encode depth view
      | .decode => t.decode depth view
      | .initial => t.initial depth view)
    p

end Page

end InteropGen

import InteropGen.CSharp.Expr

/-!
# Statements of generated code and their lines

A method body is a list of statements. It is printed as lines, each with its indentation level;
only `Line.text` turns a level into spaces.

* `Stmt.lines` puts every block between a line `{` and a line `}` at the level of its header, and
  its statements one level deeper.
-/

set_option autoImplicit false

namespace InteropGen.CSharp

/-- The two settings that the printed form of code depends on. -/
structure Style where
  /-- Spaces per indentation level. -/
  indentWidth : Nat
  /-- What the numbers of loop counters are put after. -/
  counterStem : String
  deriving DecidableEq, Repr

/-- A line of code at an indentation level. -/
structure Line where
  level : Nat
  text : String
  deriving DecidableEq, Repr

/-- The line with its indentation and line end; an empty line has no indentation. -/
def Line.render (indentWidth : Nat) (line : Line) : String :=
  if line.text = "" then "\n"
  else String.ofList (List.replicate (indentWidth * line.level) ' ') ++ line.text ++ "\n"

/-- Lines one after the other. -/
def renderLines (indentWidth : Nat) (lines : List Line) : String :=
  String.join (lines.map (·.render indentWidth))

/-- An empty line. -/
def Line.blank : Line := ⟨0, ""⟩

/-- A block at `level`: braces on lines of their own around lines one level deeper. -/
def braced (level : Nat) (inner : List Line) : List Line :=
  ⟨level, "\x7b"⟩ :: inner ++ [⟨level, "\x7d"⟩]

/-- Statements. -/
inductive Stmt where
  | assign (place value : Expr)
  /-- A local variable with its first value. -/
  | declare (type : Ty) (name : Local) (value : Expr)
  /-- A call for its effect. -/
  | run (call : Expr)
  /-- A block of its own. -/
  | block (body : List Stmt)
  /-- A loop whose counter, known by its depth, runs from zero up to a bound. -/
  | countUp (depth : Nat) (bound : Expr) (body : List Stmt)
  /-- A conditional without an alternative. -/
  | when (condition : Expr) (body : List Stmt)
  /-- A loop over a list. -/
  | forEach (type : Ty) (name : Local) (list : Expr) (body : List Stmt)

/-- The header of a counted loop. -/
def countUpHeader (stem : String) (depth : Nat) (bound : Expr) : String :=
  let i := (Local.counter depth).name stem
  "for (int " ++ i ++ " = 0; " ++ i ++ " < " ++ bound.text stem ++ "; ++" ++ i ++ ")"

mutual

/-- The lines of a statement at `level`. -/
def Stmt.lines (stem : String) (level : Nat) : Stmt → List Line
  | .assign place value => [⟨level, place.text stem ++ " = " ++ value.text stem ++ ";"⟩]
  | .declare type name value =>
    [⟨level, type.text ++ " " ++ name.name stem ++ " = " ++ value.text stem ++ ";"⟩]
  | .run call => [⟨level, call.text stem ++ ";"⟩]
  | .block body => braced level (bodyLines stem (level + 1) body)
  | .countUp depth bound body =>
    ⟨level, countUpHeader stem depth bound⟩ :: braced level (bodyLines stem (level + 1) body)
  | .when condition body =>
    ⟨level, "if (" ++ condition.text stem ++ ")"⟩ ::
      braced level (bodyLines stem (level + 1) body)
  | .forEach type name list body =>
    ⟨level, "foreach (" ++ type.text ++ " " ++ name.name stem ++ " in " ++ list.text stem ++ ")"⟩ ::
      braced level (bodyLines stem (level + 1) body)

/-- The lines of statements one after the other. -/
def bodyLines (stem : String) (level : Nat) : List Stmt → List Line
  | [] => []
  | s :: rest => s.lines stem level ++ bodyLines stem level rest

end

theorem bodyLines_append (stem : String) (level : Nat) (a b : List Stmt) :
    bodyLines stem level (a ++ b) = bodyLines stem level a ++ bodyLines stem level b := by
  induction a with
  | nil => simp [bodyLines]
  | cons s rest ih => simp [bodyLines, ih]

end InteropGen.CSharp

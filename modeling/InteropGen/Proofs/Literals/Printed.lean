import Mathlib.Data.List.Basic
import InteropGen.CSharp.Unit

/-!
# The text of a constant

A constant is printed as a line of its own, in the class that holds constants and inside its namespace
if it has one. What its literal is can be read off that text.

* `SourceUnit.text_constant` — the whole text, by what stands before the literal and after it;
* `printedLiteral?` — the literal in a text, and `printedLiteral?_text`, that it is the one printed.
-/

set_option autoImplicit false

namespace InteropGen.CSharp

/-- The blanks before a line. -/
def indentation (width level : Nat) : String :=
  String.ofList (List.replicate (width * level) ' ')

/-- The text of a constant up to its literal. -/
def constantHead (width : Nat) (enclosing : Option String) (type name : String) : String :=
  match enclosing with
  | none =>
    indentation width 0 ++ "public static partial class Constants" ++ "\n" ++
    indentation width 0 ++ "\x7b" ++ "\n" ++
    indentation width 1 ++ "public const " ++ type ++ " " ++ name ++ " = "
  | some path =>
    indentation width 0 ++ "namespace " ++ path ++ "\n" ++
    indentation width 0 ++ "\x7b" ++ "\n" ++
    indentation width 1 ++ "public static partial class Constants" ++ "\n" ++
    indentation width 1 ++ "\x7b" ++ "\n" ++
    indentation width 2 ++ "public const " ++ type ++ " " ++ name ++ " = "

/-- The text after the literal: the end of the line, and of the blocks around it. -/
def constantTail (width : Nat) (enclosing : Option String) : String :=
  match enclosing with
  | none => ";" ++ "\n" ++ indentation width 0 ++ "\x7d" ++ "\n"
  | some _ =>
    ";" ++ "\n" ++ indentation width 1 ++ "\x7d" ++ "\n" ++ indentation width 0 ++ "\x7d" ++ "\n"

/-- The literal in the text of a constant of a type and a name. -/
def printedLiteral? (width : Nat) (enclosing : Option String) (type name text : String) :
    Option (List Char) := do
  let rest ← text.toList.dropPrefix? (constantHead width enclosing type name).toList
  rest.dropSuffix? (constantTail width enclosing).toList

section
variable (width : Nat) (path type name : String)

theorem constantHead_none : constantHead width none type name =
    indentation width 0 ++ "public static partial class Constants" ++ "\n" ++
    indentation width 0 ++ "\x7b" ++ "\n" ++
    indentation width 1 ++ "public const " ++ type ++ " " ++ name ++ " = " := rfl

theorem constantHead_some : constantHead width (some path) type name =
    indentation width 0 ++ "namespace " ++ path ++ "\n" ++
    indentation width 0 ++ "\x7b" ++ "\n" ++
    indentation width 1 ++ "public static partial class Constants" ++ "\n" ++
    indentation width 1 ++ "\x7b" ++ "\n" ++
    indentation width 2 ++ "public const " ++ type ++ " " ++ name ++ " = " := rfl

theorem constantTail_none : constantTail width none =
    ";" ++ "\n" ++ indentation width 0 ++ "\x7d" ++ "\n" := rfl

theorem constantTail_some : constantTail width (some path) =
    ";" ++ "\n" ++ indentation width 1 ++ "\x7d" ++ "\n" ++ indentation width 0 ++ "\x7d" ++ "\n" :=
  rfl

end

theorem Line.render_of_ne {line : Line} (width : Nat) (h : line.text ≠ "") :
    line.render width = indentation width line.level ++ line.text ++ "\n" :=
  if_neg h

/-- What a text starts with is not lost. -/
theorem append_ne_empty {a : String} (ha : a ≠ "") (b : String) : a ++ b ≠ "" := by
  intro h
  have hempty : a.toList ++ b.toList = [] := by
    rw [← String.toList_append, h]
    rfl
  exact ha (String.toList_inj.mp (List.append_eq_nil_iff.mp hempty).1)

theorem renderLines_cons (width : Nat) (line : Line) (rest : List Line) :
    renderLines width (line :: rest) = line.render width ++ renderLines width rest := by
  rw [renderLines, List.map_cons, String.join_cons, renderLines]

@[simp] theorem renderLines_nil (width : Nat) : renderLines width [] = "" := rfl

theorem renderLines_append (width : Nat) (a b : List Line) :
    renderLines width (a ++ b) = renderLines width a ++ renderLines width b := by
  induction a with
  | nil => simp
  | cons line rest ih => rw [List.cons_append, renderLines_cons, renderLines_cons, ih, String.append_assoc]

/-- The lines of a block. -/
theorem renderLines_headed (width level : Nat) {header : String} (h : header ≠ "")
    (inner : List Line) :
    renderLines width (headed level header inner) =
      indentation width level ++ header ++ "\n" ++
        (indentation width level ++ "\x7b" ++ "\n") ++ renderLines width inner ++
        (indentation width level ++ "\x7d" ++ "\n") := by
  have hopen : (⟨level, "\x7b"⟩ : Line).text ≠ "" := by simp
  have hclose : (⟨level, "\x7d"⟩ : Line).text ≠ "" := by simp
  rw [headed, braced, renderLines_cons, List.cons_append, renderLines_cons, renderLines_append,
    renderLines_cons, renderLines_nil, String.append_empty, Line.render_of_ne width h,
    Line.render_of_ne width hopen, Line.render_of_ne width hclose]
  simp only [String.append_assoc]

section
variable (style : Style) (type : Ty) (name literal : String)

/-- The line of a constant. -/
theorem renderLines_declaration (level : Nat) :
    renderLines style.indentWidth [⟨level, "public const " ++ type.text ++ " " ++ identifier name ++
        " = " ++ literal ++ ";"⟩] =
      indentation style.indentWidth level ++ "public const " ++ type.text ++ " " ++
        identifier name ++ " = " ++ literal ++ ";" ++ "\n" := by
  have hne : (⟨level, "public const " ++ type.text ++ " " ++ identifier name ++ " = " ++ literal ++
      ";"⟩ : Line).text ≠ "" := by
    simp only [String.append_assoc]
    exact append_ne_empty (by decide) _
  rw [renderLines_cons, Line.render_of_ne _ hne, renderLines_nil, String.append_empty]
  simp only [String.append_assoc]

/-- The whole text of a constant. -/
theorem SourceUnit.text_constant (enclosing : Option String) :
    SourceUnit.text style ⟨enclosing, .constant type name literal⟩ =
      constantHead style.indentWidth enclosing type.text (identifier name) ++ literal ++
        constantTail style.indentWidth enclosing := by
  have hclass : "public static partial class Constants" ≠ "" := by decide
  cases enclosing with
  | none =>
    rw [SourceUnit.text, SourceUnit.lines, TypeDecl.lines, renderLines_headed _ _ hclass,
      renderLines_declaration, constantHead_none, constantTail_none]
    simp only [String.append_assoc]
  | some path =>
    have hnamespace : "namespace " ++ path ≠ "" := append_ne_empty (by decide) path
    rw [SourceUnit.text, SourceUnit.lines, renderLines_headed _ _ hnamespace, TypeDecl.lines,
      renderLines_headed _ _ hclass, renderLines_declaration, constantHead_some, constantTail_some]
    simp only [String.append_assoc]

/-- The literal that is printed is the one that is read. -/
theorem printedLiteral?_text (enclosing : Option String) :
    printedLiteral? style.indentWidth enclosing type.text (identifier name)
      (SourceUnit.text style ⟨enclosing, .constant type name literal⟩) = some literal.toList := by
  rw [printedLiteral?, SourceUnit.text_constant, String.toList_append, String.toList_append,
    List.append_assoc, List.dropPrefix?_append_of_beq _ (by simp)]
  exact List.dropSuffix?_eq_some_iff.mpr ⟨_, rfl, by simp⟩

end

end InteropGen.CSharp

import InteropGen.Proofs.Names.Spelled
import InteropGen.CSharp.Unit

/-!
# Printed code in pieces

The text of a type, an expression, a statement or a declaration, cut into what it is put together
from: names and paths that come from declarations, local variables, numerals, and texts that are the
same in all code. What is said about the tree of some code can so be said about its text.

* `Ty.text_eq`, `Expr.text_eq` — the pieces make up the text;
* `Stmt.lines_text`, `bodyLines_text` — the same for statements, line by line.
-/

set_option autoImplicit false

namespace InteropGen

open CSharp

/-- How a declared name or a path is printed. -/
def Spelling.text : Spelling → String
  | .path text => text
  | .name n => identifier n

namespace CSharp

inductive Piece where
  /-- A text that is the same in all code. -/
  | fixed (text : String)
  | binding (name : Local)
  | numeral (n : Nat)
  /-- A declared name or a path. -/
  | spelling (s : Spelling)
  /-- A text that was handed over as it is. -/
  | given (text : String)

def Piece.text (stem : String) : Piece → String
  | fixed text | given text => text
  | binding name => name.name stem
  | numeral n => toString n
  | spelling s => s.text

/-- The text that pieces make up. -/
def textOf (stem : String) (pieces : List Piece) : String :=
  String.join (pieces.map (·.text stem))

@[simp] theorem textOf_nil (stem : String) : textOf stem [] = "" := rfl

@[simp] theorem textOf_cons (stem : String) (p : Piece) (rest : List Piece) :
    textOf stem (p :: rest) = p.text stem ++ textOf stem rest := by
  simp [textOf, String.join_cons]

@[simp] theorem textOf_append (stem : String) (a b : List Piece) :
    textOf stem (a ++ b) = textOf stem a ++ textOf stem b := by
  simp [textOf, String.join_append]

theorem textOf_fixed (stem text : String) : textOf stem [.fixed text] = text := by
  simp [Piece.text]

theorem textOf_intercalate (stem : String) (separator : List Piece) (items : List (List Piece)) :
    textOf stem (separator.intercalate items) =
      (textOf stem separator).intercalate (items.map (textOf stem)) := by
  induction items with
  | nil => simp
  | cons first rest ih =>
    cases rest with
    | nil => simp
    | cons second more =>
      rw [List.intercalate_cons_cons, textOf_append, textOf_append, ih]
      simp only [List.map_cons, String.intercalate_cons_cons]

/-- Pieces with commas between them. -/
def listed (items : List (List Piece)) : List Piece :=
  [.fixed ", "].intercalate items

theorem textOf_listed (stem : String) (items : List (List Piece)) :
    textOf stem (listed items) = ", ".intercalate (items.map (textOf stem)) := by
  simp [listed, textOf_intercalate, Piece.text]

/-- A property of what comes from declarations: it says nothing of the rest. -/
class OfDeclarations (Q : Piece → Prop) : Prop where
  fixed (text : String) : Q (.fixed text)
  binding (name : Local) : Q (.binding name)

/-- What holds of separators holds of a separated list if it holds of its items. -/
theorem forall_mem_intercalate {Q : Piece → Prop} {separator : List Piece}
    (hseparator : ∀ p ∈ separator, Q p) (items : List (List Piece)) :
    (∀ p ∈ separator.intercalate items, Q p) ↔ ∀ item ∈ items, ∀ p ∈ item, Q p := by
  induction items with
  | nil => simp
  | cons first rest ih =>
    cases rest with
    | nil => simp
    | cons second more =>
      rw [List.intercalate_cons_cons, List.forall_mem_append, List.forall_mem_append, ih]
      refine ⟨fun h => List.forall_mem_cons.mpr ⟨h.1.1, h.2⟩, fun h => ?_⟩
      obtain ⟨hfirst, hmore⟩ := List.forall_mem_cons.mp h
      exact ⟨⟨hfirst, hseparator⟩, hmore⟩

@[simp] theorem forall_mem_listed {Q : Piece → Prop} [OfDeclarations Q] (items : List (List Piece)) :
    (∀ p ∈ listed items, Q p) ↔ ∀ item ∈ items, ∀ p ∈ item, Q p :=
  forall_mem_intercalate (List.forall_mem_singleton.mpr (OfDeclarations.fixed _)) items

/-- Every piece of the lines has the property. -/
def EveryPiece (Q : Piece → Prop) (lines : List (List Piece)) : Prop :=
  ∀ line ∈ lines, ∀ p ∈ line, Q p

section
variable {Q : Piece → Prop}

@[simp] theorem everyPiece_nil : EveryPiece Q [] := nofun

@[simp] theorem everyPiece_cons (line : List Piece) (rest : List (List Piece)) :
    EveryPiece Q (line :: rest) ↔ (∀ p ∈ line, Q p) ∧ EveryPiece Q rest :=
  List.forall_mem_cons

@[simp] theorem everyPiece_append (a b : List (List Piece)) :
    EveryPiece Q (a ++ b) ↔ EveryPiece Q a ∧ EveryPiece Q b :=
  List.forall_mem_append

@[simp] theorem everyPiece_flatMap {α : Type} (items : List α) (lines : α → List (List Piece)) :
    EveryPiece Q (items.flatMap lines) ↔ ∀ item ∈ items, EveryPiece Q (lines item) := by
  simp only [EveryPiece, List.mem_flatMap]
  exact ⟨fun h item hitem line hline => h line ⟨item, hitem, hline⟩,
    fun h line ⟨item, hitem, hline⟩ => h item hitem line hline⟩

end

/-! ## Types and expressions -/

def Ty.pieces : Ty → List Piece
  | builtin type => [.fixed type.text]
  | string => [.fixed "string"]
  | intPtr => [.fixed "IntPtr"]
  | named path => [.spelling (.path path)]
  | array element rank =>
    element.pieces ++
      [.fixed "[", .fixed (String.ofList (List.replicate (rank - 1) ',')), .fixed "]"]
  | listInterface element => .fixed "IList" :: .fixed "<" :: element.pieces ++ [.fixed ">"]
  | list element => .fixed "List" :: .fixed "<" :: element.pieces ++ [.fixed ">"]

theorem Ty.text_eq (stem : String) (type : Ty) : type.text = textOf stem type.pieces := by
  induction type with
  | array element rank ih => simp [text, pieces, Piece.text, ih, String.append_assoc]
  | listInterface element ih => simp [text, pieces, Piece.text, ih, ← String.append_assoc]
  | list element ih => simp [text, pieces, Piece.text, ih, ← String.append_assoc]
  | _ => simp [text, pieces, Piece.text, Spelling.text]

/-- The class and the name of a static function. -/
def Function.pieces : Function → List Piece
  | ptrToStructure type =>
    .fixed "Marshal.PtrToStructure" :: .fixed "<" :: type.pieces ++ [.fixed ">"]
  | sizeOf type => .fixed "Marshal.SizeOf" :: .fixed "<" :: type.pieces ++ [.fixed ">"]
  | releaseNative type => type.pieces ++ [.fixed ".", .fixed "ReleaseNative"]
  | f => [.fixed f.text]

theorem Function.text_eq (stem : String) (f : Function) : f.text = textOf stem f.pieces := by
  cases f with
  | ptrToStructure type =>
    change "Marshal.PtrToStructure<" ++ type.text ++ ">" = _
    simp [pieces, Piece.text, type.text_eq stem, ← String.append_assoc]
  | sizeOf type =>
    change "Marshal.SizeOf<" ++ type.text ++ ">" = _
    simp [pieces, Piece.text, type.text_eq stem, ← String.append_assoc]
  | releaseNative type =>
    change type.text ++ ".ReleaseNative" = _
    simp [pieces, Piece.text, type.text_eq stem]
  | _ => exact (textOf_fixed stem _).symm

mutual

def Expr.pieces : Expr → List Piece
  | .var name => [.binding name]
  | .field owner name => [.fixed owner.text, .fixed ".", .spelling (.name name)]
  | .spelled text => [.given text]
  | .nat n => [.numeral n]
  | .constant c => [.fixed c.text]
  | .paren inner => .fixed "(" :: inner.pieces ++ [.fixed ")"]
  | .index base indices => base.pieces ++ .fixed "[" :: listed (piecesOf indices) ++ [.fixed "]"]
  | .listCount list => list.pieces ++ [.fixed ".", .fixed "Count"]
  | .arrayLength array => array.pieces ++ [.fixed ".", .fixed "Length"]
  | .cast type operand => .fixed "(" :: type.pieces ++ .fixed ")" :: operand.pieces
  | .uncheckedCast type operand =>
    .fixed "unchecked" :: .fixed "(" :: .fixed "(" :: type.pieces ++
      .fixed ")" :: operand.pieces ++ [.fixed ")"]
  | .binary op left right =>
    left.pieces ++ .fixed " " :: .fixed op.text :: .fixed " " :: right.pieces
  | .sum terms => [.fixed " ", .fixed "+", .fixed " "].intercalate (piecesOf terms)
  | .conditional condition whenTrue whenFalse =>
    condition.pieces ++ .fixed " " :: .fixed "?" :: .fixed " " :: whenTrue.pieces ++
      .fixed " " :: .fixed ":" :: .fixed " " :: whenFalse.pieces
  | .byRef place => .fixed "ref" :: .fixed " " :: place.pieces
  | .call function arguments =>
    function.pieces ++ .fixed "(" :: listed (piecesOf arguments) ++ [.fixed ")"]
  | .invoke receiver method arguments =>
    receiver.pieces ++ .fixed "." :: .fixed method.text :: .fixed "(" ::
      listed (piecesOf arguments) ++ [.fixed ")"]
  | .defaultOf type => .fixed "default" :: .fixed "(" :: type.pieces ++ [.fixed ")"]
  | .newObject type arguments =>
    .fixed "new" :: .fixed " " :: type.pieces ++ .fixed "(" :: listed (piecesOf arguments) ++
      [.fixed ")"]
  | .newArray element dims inner =>
    .fixed "new" :: .fixed " " :: element.pieces ++
      .fixed "[" :: listed (dims.map fun d => [.numeral d]) ++ [.fixed "]", .fixed (brackets inner)]

def piecesOf : List Expr → List (List Piece)
  | [] => []
  | e :: es => e.pieces :: piecesOf es

end

mutual

theorem Expr.text_eq (stem : String) (e : Expr) : e.text stem = textOf stem e.pieces := by
  cases e with
  | paren e | listCount e | arrayLength e | byRef e =>
    simp [Expr.text, Expr.pieces, Piece.text, e.text_eq stem, ← String.append_assoc]
  | cast type e | uncheckedCast type e =>
    simp [Expr.text, Expr.pieces, Piece.text, e.text_eq stem, type.text_eq stem,
      ← String.append_assoc]
  | index base indices =>
    simp [Expr.text, Expr.pieces, Piece.text, base.text_eq stem, texts_eq stem indices,
      textOf_listed, ← String.append_assoc]
  | binary op left right =>
    simp [Expr.text, Expr.pieces, Piece.text, left.text_eq stem, right.text_eq stem,
      ← String.append_assoc]
  | sum terms =>
    simp [Expr.text, Expr.pieces, Piece.text, texts_eq stem terms, textOf_intercalate]
  | conditional condition whenTrue whenFalse =>
    simp [Expr.text, Expr.pieces, Piece.text, condition.text_eq stem, whenTrue.text_eq stem,
      whenFalse.text_eq stem, ← String.append_assoc]
  | call function arguments =>
    simp [Expr.text, Expr.pieces, Piece.text, function.text_eq stem, texts_eq stem arguments,
      textOf_listed, ← String.append_assoc]
  | invoke receiver method arguments =>
    simp [Expr.text, Expr.pieces, Piece.text, receiver.text_eq stem, texts_eq stem arguments,
      textOf_listed, ← String.append_assoc]
  | defaultOf type =>
    simp [Expr.text, Expr.pieces, Piece.text, type.text_eq stem, ← String.append_assoc]
  | newObject type arguments =>
    simp [Expr.text, Expr.pieces, Piece.text, type.text_eq stem, texts_eq stem arguments,
      textOf_listed, ← String.append_assoc]
  | newArray element dims inner =>
    have hdims : dims.map (textOf stem ∘ fun d => [Piece.numeral d]) = dims.map toString :=
      List.map_congr_left fun d _ => by simp [Piece.text]
    simp [Expr.text, Expr.pieces, Piece.text, element.text_eq stem, textOf_listed, hdims,
      ← String.append_assoc]
  | _ => simp [Expr.text, Expr.pieces, Piece.text, Spelling.text, ← String.append_assoc]

theorem texts_eq (stem : String) (es : List Expr) :
    texts stem es = (piecesOf es).map (textOf stem) := by
  cases es with
  | nil => rfl
  | cons e es => rw [texts, piecesOf, List.map_cons, e.text_eq stem, texts_eq stem es]

end

/-! ## Statements, line by line -/

/-- The pieces of the lines of a block. -/
def inBraces (inner : List (List Piece)) : List (List Piece) :=
  [.fixed "\x7b"] :: inner ++ [[.fixed "\x7d"]]

mutual

/-- The pieces of the lines of a statement. -/
def Stmt.pieces : Stmt → List (List Piece)
  | .assign place value => [place.pieces ++ .fixed " = " :: value.pieces ++ [.fixed ";"]]
  | .declare type name value =>
    [type.pieces ++ .fixed " " :: .binding name :: .fixed " = " :: value.pieces ++ [.fixed ";"]]
  | .run call => [call.pieces ++ [.fixed ";"]]
  | .block body => inBraces (bodyPieces body)
  | .countUp depth bound body =>
    ([.fixed "for", .fixed " (", .fixed "int", .fixed " ", .binding (.counter depth),
      .fixed " = 0; ", .binding (.counter depth), .fixed " < "] ++ bound.pieces ++
        [.fixed "; ", .fixed "++", .binding (.counter depth), .fixed ")"]) ::
        inBraces (bodyPieces body)
  | .when condition body =>
    (.fixed "if" :: .fixed " (" :: condition.pieces ++ [.fixed ")"]) :: inBraces (bodyPieces body)
  | .forEach type name list body =>
    (.fixed "foreach" :: .fixed " (" :: type.pieces ++
      .fixed " " :: .binding name :: .fixed " in " :: list.pieces ++ [.fixed ")"]) ::
        inBraces (bodyPieces body)

def bodyPieces : List Stmt → List (List Piece)
  | [] => []
  | s :: rest => s.pieces ++ bodyPieces rest

end

@[simp] theorem everyPiece_inBraces {Q : Piece → Prop} [OfDeclarations Q]
    (inner : List (List Piece)) : EveryPiece Q (inBraces inner) ↔ EveryPiece Q inner := by
  simp [inBraces, OfDeclarations.fixed]

theorem lines_text_braced (stem : String) (level : Nat) {inner : List Line}
    {pieces : List (List Piece)} (h : inner.map (·.text) = pieces.map (textOf stem)) :
    (braced level inner).map (·.text) = (inBraces pieces).map (textOf stem) := by
  simp [braced, inBraces, Piece.text, h]

mutual

theorem Stmt.lines_text (stem : String) (level : Nat) (s : Stmt) :
    (s.lines stem level).map (·.text) = s.pieces.map (textOf stem) := by
  cases s with
  | assign place value =>
    simp [Stmt.lines, Stmt.pieces, Piece.text, place.text_eq stem, value.text_eq stem,
      ← String.append_assoc]
  | declare type name value =>
    simp [Stmt.lines, Stmt.pieces, Piece.text, type.text_eq stem, value.text_eq stem,
      ← String.append_assoc]
  | run call => simp [Stmt.lines, Stmt.pieces, Piece.text, call.text_eq stem]
  | block body =>
    rw [Stmt.lines, Stmt.pieces]
    exact lines_text_braced stem level (bodyLines_text stem (level + 1) body)
  | countUp depth bound body =>
    rw [Stmt.lines, Stmt.pieces, List.map_cons, List.map_cons,
      lines_text_braced stem level (bodyLines_text stem (level + 1) body)]
    delta countUpHeader
    simp [Piece.text, bound.text_eq stem, ← String.append_assoc]
  | when condition body =>
    rw [Stmt.lines, Stmt.pieces, List.map_cons, List.map_cons,
      lines_text_braced stem level (bodyLines_text stem (level + 1) body)]
    simp [Piece.text, condition.text_eq stem, ← String.append_assoc]
  | forEach type name list body =>
    rw [Stmt.lines, Stmt.pieces, List.map_cons, List.map_cons,
      lines_text_braced stem level (bodyLines_text stem (level + 1) body)]
    simp [Piece.text, type.text_eq stem, list.text_eq stem, ← String.append_assoc]

theorem bodyLines_text (stem : String) (level : Nat) (body : List Stmt) :
    (bodyLines stem level body).map (·.text) = (bodyPieces body).map (textOf stem) := by
  cases body with
  | nil => rfl
  | cons s rest =>
    rw [bodyLines, bodyPieces, List.map_append, List.map_append, s.lines_text stem level,
      bodyLines_text stem level rest]

end

end CSharp

end InteropGen

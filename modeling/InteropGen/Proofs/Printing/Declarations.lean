import InteropGen.Proofs.Methods
import InteropGen.Proofs.Printing.Pieces

/-!
# Printed declarations in pieces

The lines of a declaration and of the namespace around it, cut into pieces.

* `ValueClass.header_pieces` — the header of a method;
* `SourceUnit.lines_text` — the pieces of a unit make up its lines.
-/

set_option autoImplicit false

namespace InteropGen

open CSharp

/-- A parameter: its type, which may be the transfer type, and its name. -/
def Direction.parameterPieces (transferName : String) : Direction → List (List Piece)
  | .initial => []
  | .toTransfer | .release =>
    [[.fixed "ref ", .spelling (.path transferName), .fixed " ", .binding .wrapper],
      [.fixed "List<IntPtr>", .fixed " ", .binding .toRelease]]
  | .fromTransfer => [[.spelling (.path transferName), .fixed " ", .binding .wrapper]]
  | .encode => [[.fixed "CdrWriter", .fixed " ", .binding .writer]]
  | .decode => [[.fixed "CdrReader", .fixed " ", .binding .reader]]

theorem Direction.parameters_text (stem transferName : String) (direction : Direction) :
    (direction.parameters transferName).map (fun p => p.1 ++ " " ++ p.2.name stem) =
      (direction.parameterPieces transferName).map (textOf stem) := by
  cases direction <;>
    simp [Direction.parameters, Direction.parameterPieces, Piece.text, Spelling.text,
      ← String.append_assoc]

def MarshalAs.pieces : MarshalAs → List Piece
  | scalar type => [.fixed ("[MarshalAs(UnmanagedType." ++ type.text ++ ")]")]
  | byValArray length none =>
    [.fixed "[MarshalAs(UnmanagedType.ByValArray, SizeConst = ", .numeral length, .fixed ")]"]
  | byValArray length (some type) =>
    [.fixed "[MarshalAs(UnmanagedType.ByValArray, SizeConst = ", .numeral length,
      .fixed (", ArraySubType = UnmanagedType." ++ type.text ++ ")]")]

theorem MarshalAs.text_eq (stem : String) (a : MarshalAs) : a.text = textOf stem a.pieces := by
  cases a with
  | scalar type =>
    exact (textOf_fixed stem _).symm
  | byValArray length elementType =>
    cases elementType with
    | none =>
      change "[MarshalAs(UnmanagedType.ByValArray, SizeConst = " ++ toString length ++ ")]" = _
      simp [pieces, Piece.text, ← String.append_assoc]
    | some type =>
      change "[MarshalAs(UnmanagedType.ByValArray, SizeConst = " ++ toString length ++
        ", ArraySubType = UnmanagedType." ++ type.text ++ ")]" = _
      simp [pieces, Piece.text, ← String.append_assoc]

namespace CSharp

theorem lines_text_headed (stem : String) (level : Nat) {header : String}
    {headerPieces : List Piece} (hheader : header = textOf stem headerPieces)
    {inner : List Line} {pieces : List (List Piece)}
    (h : inner.map (·.text) = pieces.map (textOf stem)) :
    (headed level header inner).map (·.text) =
      (headerPieces :: inBraces pieces).map (textOf stem) := by
  rw [headed, List.map_cons, List.map_cons, lines_text_braced stem level h, hheader]

/-- The pieces of a region. -/
def inRegion (title : String) (members : List (List (List Piece))) : List (List Piece) :=
  [.fixed ("#region " ++ title)] :: [] :: members.flatMap (· ++ [[]]) ++ [[.fixed "#endregion"]]

@[simp] theorem everyPiece_inRegion {Q : Piece → Prop} [OfDeclarations Q] (title : String)
    (members : List (List (List Piece))) :
    EveryPiece Q (inRegion title members) ↔ ∀ member ∈ members, EveryPiece Q member := by
  simp [inRegion, OfDeclarations.fixed]

theorem lines_text_region {α : Type} (stem : String) (level : Nat) (title : String) (items : List α)
    {lines : α → List Line} {pieces : α → List (List Piece)}
    (h : ∀ item, (lines item).map (·.text) = (pieces item).map (textOf stem)) :
    (region level title (items.map lines)).map (·.text) =
      (inRegion title (items.map pieces)).map (textOf stem) := by
  have hblank : Line.blank.text = "" := rfl
  simp [region, inRegion, List.flatMap_map, List.map_flatMap, Piece.text, h, hblank]

namespace ValueClass

def propertyPieces (property : Ty × String) : List Piece :=
  .fixed "public " :: property.1.pieces ++
    [.fixed " ", .spelling (.name property.2), .fixed " \x7b get; set; \x7d"]

def headerPieces (c : ValueClass) (direction : Direction) : List Piece :=
  (match direction with
    | .initial => [.fixed "public ", .spelling (.name c.name)]
    | direction => [.fixed (c.headerStart direction)]) ++
  .fixed "(" :: listed (direction.parameterPieces c.transferName) ++ [.fixed ")"]

theorem header_pieces (stem : String) (c : ValueClass) (direction : Direction) :
    c.header stem direction = textOf stem (c.headerPieces direction) := by
  have hstart : c.headerStart direction = textOf stem
      (match direction with
        | .initial => [.fixed "public ", .spelling (.name c.name)]
        | direction => [.fixed (c.headerStart direction)]) := by
    cases direction <;> simp [headerStart, Piece.text, Spelling.text]
  simp only [header, headerPieces, textOf_append, textOf_cons, textOf_nil, textOf_listed,
    Direction.parameters_text, ← hstart]
  simp [Piece.text, ← String.append_assoc]

/-- A method in pieces; nothing, if the class does not have it. -/
def methodPieces (c : ValueClass) (direction : Direction) : List (List Piece) :=
  (c.body? direction).elim [] fun body => c.headerPieces direction :: inBraces (bodyPieces body)

theorem method_text (stem : String) (level : Nat) (c : ValueClass) (direction : Direction) :
    (c.method stem level direction).map (·.text) = (c.methodPieces direction).map (textOf stem) := by
  unfold method methodPieces
  cases c.body? direction with
  | none => rfl
  | some body =>
    exact lines_text_headed stem level (c.header_pieces stem direction)
      (bodyLines_text stem (level + 1) body)

def pieces (c : ValueClass) : List (List Piece) :=
  [.fixed "public partial class ", .spelling (.name c.name)] :: inBraces
    (c.properties.map propertyPieces ++ (if c.properties.isEmpty then [] else [[]]) ++
      c.methodPieces .initial ++ [[]] ++
      inRegion "Marshaling" ([.toTransfer, .fromTransfer, .release].map c.methodPieces) ++
      if c.codec.isSome then
        [] :: inRegion "Serialization" ([.encode, .decode].map c.methodPieces)
      else [])

theorem lines_text (stem : String) (level : Nat) (c : ValueClass) :
    (c.lines stem level).map (·.text) = c.pieces.map (textOf stem) := by
  have hproperties : (c.properties.map (propertyLine (level + 1))).map (·.text) =
      (c.properties.map propertyPieces).map (textOf stem) := by
    rw [List.map_map, List.map_map]
    refine List.map_congr_left fun property _ => ?_
    simp [propertyLine, propertyPieces, Piece.text, Spelling.text, property.1.text_eq stem,
      ← String.append_assoc]
  have hmethod := c.method_text stem (level + 1)
  have hmarshaling := lines_text_region stem (level + 1) "Marshaling"
    [.toTransfer, .fromTransfer, .release] hmethod
  have hserialization := lines_text_region stem (level + 1) "Serialization" [.encode, .decode] hmethod
  have hblank : Line.blank.text = "" := rfl
  rw [lines_eq]
  refine lines_text_headed stem level (by simp [Piece.text, Spelling.text]) ?_
  simp only [List.map_cons, List.map_nil] at hmarshaling hserialization
  split <;> split <;> simp [hproperties, hmethod, hmarshaling, hserialization, hblank]

/-- What holds of every piece of a class, part by part. -/
theorem everyPiece_pieces {Q : Piece → Prop} [OfDeclarations Q] (c : ValueClass) :
    EveryPiece Q c.pieces ↔ Q (.spelling (.name c.name)) ∧
      (∀ property ∈ c.properties, ∀ p ∈ propertyPieces property, Q p) ∧
      ∀ direction, EveryPiece Q (c.methodPieces direction) := by
  have hproperties : EveryPiece Q (c.properties.map propertyPieces) ↔
      ∀ property ∈ c.properties, ∀ p ∈ propertyPieces property, Q p := by
    simp only [EveryPiece, List.forall_mem_map]
  have hdirections : (∀ direction, EveryPiece Q (c.methodPieces direction)) ↔
      EveryPiece Q (c.methodPieces .initial) ∧
      (∀ direction ∈ [.toTransfer, .fromTransfer, .release], EveryPiece Q (c.methodPieces direction)) ∧
      ∀ direction ∈ [.encode, .decode], EveryPiece Q (c.methodPieces direction) := by
    refine ⟨fun h => ⟨h _, fun d _ => h d, fun d _ => h d⟩, fun h direction => ?_⟩
    obtain ⟨hinitial, hmarshaling, hcodec⟩ := h
    cases direction with
    | initial => exact hinitial
    | encode | decode => exact hcodec _ (by simp)
    | _ => exact hmarshaling _ (by simp)
  rw [hdirections, pieces]
  cases hcodec : c.codec with
  | none =>
    have hnone : ∀ direction ∈ [Direction.encode, .decode],
        EveryPiece Q (c.methodPieces direction) := by
      simp [methodPieces, body?, hcodec]
    split <;> simp [hproperties, hnone, OfDeclarations.fixed]
  | some bodies => split <;> simp [hproperties, OfDeclarations.fixed]

end ValueClass

def TransferField.pieces (f : TransferField) : List (List Piece) :=
  (f.marshalAs.elim [] fun a => [a.pieces]) ++
    [.fixed "public " :: f.type.pieces ++ [.fixed " ", .spelling (.name f.name), .fixed ";"]]

theorem TransferField.lines_text (stem : String) (level : Nat) (f : TransferField) :
    (f.lines level).map (·.text) = f.pieces.map (textOf stem) := by
  have hdeclaration : "public " ++ f.type.text ++ " " ++ identifier f.name ++ ";" =
      textOf stem (.fixed "public " :: f.type.pieces ++
        [.fixed " ", .spelling (.name f.name), .fixed ";"]) := by
    simp [Piece.text, Spelling.text, f.type.text_eq stem, ← String.append_assoc]
  unfold lines pieces
  cases f.marshalAs with
  | none => simp only [Option.elim_none, List.nil_append, List.map_cons, List.map_nil, hdeclaration]
  | some a =>
    simp only [Option.elim_some, List.map_append, List.map_cons, List.map_nil, hdeclaration,
      a.text_eq stem]

/-- The members of an enum, with commas between them. -/
def memberPieces : List String → List (List Piece)
  | [] => []
  | [last] => [[.spelling (.name last)]]
  | member :: rest => [.spelling (.name member), .fixed ","] :: memberPieces rest

theorem memberLines_text (stem : String) (level : Nat) (members : List String) :
    (memberLines level members).map (·.text) = (memberPieces members).map (textOf stem) := by
  fun_induction memberPieces members with
  | case1 => rfl
  | case2 last => simp [memberLines, Piece.text, Spelling.text]
  | case3 member rest hne ih =>
    rw [memberLines, List.map_cons, List.map_cons, ih]
    · simp [Piece.text, Spelling.text]
    · exact hne

def TypeDecl.pieces : TypeDecl → List (List Piece)
  | valueClass c => c.pieces
  | transferStruct s =>
    [.fixed "[StructLayout(LayoutKind.Sequential)]"] ::
      [.fixed "internal struct ", .spelling (.path s.name)] :: inBraces (s.fields.flatMap (·.pieces))
  | valueEnum name members =>
    [.fixed "public enum ", .spelling (.name name)] :: inBraces (memberPieces members)
  | transferEnum name members =>
    [.fixed "internal enum ", .spelling (.path name), .fixed " : int"] ::
      inBraces (memberPieces members)
  | constant type name literal =>
    [.fixed "public static partial class Constants"] :: inBraces
      [.fixed "public const " :: type.pieces ++
        [.fixed " ", .spelling (.name name), .fixed " = ", .given literal, .fixed ";"]]

theorem TypeDecl.lines_text (stem : String) (level : Nat) (d : TypeDecl) :
    (d.lines stem level).map (·.text) = d.pieces.map (textOf stem) := by
  cases d with
  | valueClass c => exact c.lines_text stem level
  | transferStruct s =>
    have hheader : "internal struct " ++ s.name =
        textOf stem [.fixed "internal struct ", .spelling (.path s.name)] := by
      simp [Piece.text, Spelling.text]
    have hfields : (s.fields.flatMap (·.lines (level + 1))).map (·.text) =
        (s.fields.flatMap (·.pieces)).map (textOf stem) := by
      rw [List.map_flatMap, List.map_flatMap]
      exact List.flatMap_congr fun f _ => f.lines_text stem (level + 1)
    rw [lines, pieces, TransferStruct.lines, List.map_cons, List.map_cons, textOf_fixed,
      lines_text_headed stem level hheader hfields]
  | valueEnum name members =>
    exact lines_text_headed stem level (by simp [Piece.text, Spelling.text])
      (memberLines_text stem (level + 1) members)
  | transferEnum name members =>
    exact lines_text_headed stem level
      (by simp [Piece.text, Spelling.text, ← String.append_assoc])
      (memberLines_text stem (level + 1) members)
  | constant type name literal =>
    refine lines_text_headed stem level (textOf_fixed stem _).symm ?_
    simp [Piece.text, Spelling.text, type.text_eq stem, ← String.append_assoc]

/-- The pieces of a unit. -/
def SourceUnit.pieces (u : SourceUnit) : List (List Piece) :=
  match u.enclosing with
  | none => u.decl.pieces
  | some path => [.fixed "namespace ", .spelling (.path path)] :: inBraces u.decl.pieces

theorem SourceUnit.lines_text (stem : String) (u : SourceUnit) :
    (u.lines stem).map (·.text) = u.pieces.map (textOf stem) := by
  unfold lines pieces
  cases u.enclosing with
  | none => exact u.decl.lines_text stem 0
  | some path =>
    exact lines_text_headed stem 0 (by simp [Piece.text, Spelling.text])
      (u.decl.lines_text stem 1)

end CSharp

end InteropGen

import InteropGen.Proofs.Names.Declared
import InteropGen.Proofs.Printing.Declarations

/-!
# Printed names

`Spells` is said of trees. Here it is said of the pieces of the printed text: what a tree spells are
just the names and paths that stand in its text.

* `Expr.spells_iff`, `bodySpells_iff`, `TypeDecl.spells_iff` — for expressions, methods, declarations.
-/

set_option autoImplicit false

namespace InteropGen

open CSharp

namespace CSharp

/-- A name or a path in a text is of the kind. What a text given as it is spells is not known. -/
def Piece.Spells (P : Spelling → Prop) : Piece → Prop
  | .spelling s => P s
  | .given _ => False
  | .fixed _ | .binding _ | .numeral _ => True

section
variable {P : Spelling → Prop}

@[simp] theorem Piece.spells_fixed (text : String) : (Piece.fixed text).Spells P := trivial

@[simp] theorem Piece.spells_binding (name : Local) : (Piece.binding name).Spells P := trivial

instance : OfDeclarations (Piece.Spells P) := ⟨Piece.spells_fixed, Piece.spells_binding⟩

@[simp] theorem Piece.spells_numeral (n : Nat) : (Piece.numeral n).Spells P := trivial

@[simp] theorem Piece.spells_spelling (s : Spelling) : (Piece.spelling s).Spells P ↔ P s := .rfl

@[simp] theorem Piece.not_spells_given (text : String) : ¬(Piece.given text).Spells P := id

theorem Ty.spells_iff (type : Ty) : type.Spells P ↔ ∀ p ∈ type.pieces, p.Spells P := by
  induction type with
  | array element rank ih | listInterface element ih | list element ih =>
    simp [pieces, ih, or_imp, forall_and]
  | _ => simp [pieces]

theorem Function.spells_iff (f : Function) : f.Spells P ↔ ∀ p ∈ f.pieces, p.Spells P := by
  cases f with
  | ptrToStructure type | sizeOf type | releaseNative type =>
    simp [pieces, type.spells_iff, or_imp, forall_and]
  | _ => simp [pieces]

mutual

theorem Expr.spells_iff (e : Expr) : e.Spells P ↔ ∀ p ∈ e.pieces, p.Spells P := by
  cases e with
  | paren e | listCount e | arrayLength e | byRef e =>
    simp [Expr.pieces, e.spells_iff, or_imp, forall_and]
  | cast type e | uncheckedCast type e =>
    simp [Expr.pieces, e.spells_iff, type.spells_iff, or_imp, forall_and]
  | index base indices =>
    simp [Expr.pieces, base.spells_iff, allSpell_iff indices, or_imp, forall_and]
  | binary op left right =>
    simp [Expr.pieces, left.spells_iff, right.spells_iff, or_imp, forall_and]
  | sum terms =>
    rw [Expr.Spells, Expr.pieces, forall_mem_intercalate (by simp), allSpell_iff terms]
  | conditional condition whenTrue whenFalse =>
    simp [Expr.pieces, condition.spells_iff, whenTrue.spells_iff, whenFalse.spells_iff, or_imp,
      forall_and]
  | call function arguments =>
    rw [Expr.Spells, function.spells_iff, allSpell_iff arguments]
    simp [Expr.pieces, or_imp, forall_and]
  | invoke receiver method arguments =>
    simp [Expr.pieces, receiver.spells_iff, allSpell_iff arguments, or_imp, forall_and]
  | defaultOf type => simp [Expr.pieces, type.spells_iff, or_imp, forall_and]
  | newObject type arguments =>
    simp [Expr.pieces, type.spells_iff, allSpell_iff arguments, or_imp, forall_and]
  | newArray element dims inner => simp [Expr.pieces, element.spells_iff, or_imp, forall_and]
  | _ => simp [Expr.pieces]

theorem allSpell_iff (es : List Expr) :
    AllSpell P es ↔ ∀ item ∈ piecesOf es, ∀ p ∈ item, p.Spells P := by
  cases es with
  | nil => simp [piecesOf]
  | cons e es => rw [AllSpell, piecesOf, List.forall_mem_cons, e.spells_iff, allSpell_iff es]

end

theorem Piece.Spells.mono {Q : Spelling → Prop} (hPQ : ∀ s, P s → Q s) {p : Piece}
    (h : p.Spells P) : p.Spells Q := by
  cases p with
  | spelling s => exact hPQ s h
  | given text => exact h
  | _ => trivial

theorem Expr.Spells.mono {Q : Spelling → Prop} (hPQ : ∀ s, P s → Q s) {e : Expr}
    (h : e.Spells P) : e.Spells Q :=
  e.spells_iff.mpr fun p hp => (e.spells_iff.mp h p hp).mono hPQ

mutual

theorem Stmt.spells_iff (s : Stmt) : s.Spells P ↔ EveryPiece (Piece.Spells P) s.pieces := by
  cases s with
  | assign place value =>
    simp [Stmt.pieces, place.spells_iff, value.spells_iff, or_imp, forall_and]
  | declare type name value =>
    simp [Stmt.pieces, type.spells_iff, value.spells_iff, or_imp, forall_and]
  | run call => simp [Stmt.pieces, call.spells_iff, or_imp, forall_and]
  | block body => simp [Stmt.pieces, bodySpells_iff body]
  | countUp depth bound body =>
    simp [Stmt.pieces, bound.spells_iff, bodySpells_iff body, or_imp, forall_and]
  | when condition body =>
    simp [Stmt.pieces, condition.spells_iff, bodySpells_iff body, or_imp, forall_and]
  | forEach type name list body =>
    simp [Stmt.pieces, type.spells_iff, list.spells_iff, bodySpells_iff body, or_imp, forall_and,
      and_assoc]

theorem bodySpells_iff (body : List Stmt) :
    BodySpells P body ↔ EveryPiece (Piece.Spells P) (bodyPieces body) := by
  cases body with
  | nil => simp [bodyPieces]
  | cons s rest => rw [BodySpells, bodyPieces, everyPiece_append, s.spells_iff, bodySpells_iff rest]

end

namespace ValueClass

theorem spells_headerPieces (c : ValueClass) (direction : Direction)
    (hname : P (.name c.name)) (htransfer : P (.path c.transferName)) :
    ∀ p ∈ c.headerPieces direction, p.Spells P := by
  cases direction <;>
    simp [headerPieces, Direction.parameterPieces, hname, htransfer, or_imp, forall_and]

theorem spells_methodPieces (c : ValueClass) (direction : Direction)
    (hname : P (.name c.name)) (htransfer : P (.path c.transferName)) :
    EveryPiece (Piece.Spells P) (c.methodPieces direction) ↔
      ∀ body, c.body? direction = some body → BodySpells P body := by
  unfold methodPieces
  cases hbody : c.body? direction with
  | none => simp
  | some body =>
    simp [bodySpells_iff]
    exact fun _ => c.spells_headerPieces direction hname htransfer

theorem spells_propertyPieces (property : Ty × String) :
    (∀ p ∈ propertyPieces property, p.Spells P) ↔ property.1.Spells P ∧ P (.name property.2) := by
  simp [propertyPieces, property.1.spells_iff, or_imp, forall_and]

/-- What a class spells, by its methods. -/
theorem spells_bodies (c : ValueClass) : (TypeDecl.valueClass c).Spells P ↔
    P (.name c.name) ∧ P (.path c.transferName) ∧
      (∀ property ∈ c.properties, property.1.Spells P ∧ P (.name property.2)) ∧
      ∀ direction body, c.body? direction = some body → BodySpells P body := by
  rw [c.forall_bodies]
  exact .rfl

theorem spells_iff (c : ValueClass) :
    (TypeDecl.valueClass c).Spells P ↔ EveryPiece (Piece.Spells P) c.pieces := by
  rw [spells_bodies, everyPiece_pieces]
  simp only [spells_propertyPieces, Piece.spells_spelling]
  constructor
  · rintro ⟨hname, htransfer, hproperties, hmethods⟩
    exact ⟨hname, hproperties, fun direction =>
      (c.spells_methodPieces direction hname htransfer).mpr (hmethods direction)⟩
  · rintro ⟨hname, hproperties, hmethods⟩
    have htransfer : P (.path c.transferName) := by
      have hheader := (everyPiece_cons _ _).mp (hmethods .fromTransfer)
      simpa [headerPieces, Direction.parameterPieces, or_imp, forall_and] using hheader.1
    exact ⟨hname, htransfer, hproperties, fun direction =>
      (c.spells_methodPieces direction hname htransfer).mp (hmethods direction)⟩

end ValueClass

theorem everyPiece_memberPieces (members : List String) :
    EveryPiece (Piece.Spells P) (memberPieces members) ↔ ∀ m ∈ members, P (.name m) := by
  fun_induction memberPieces members with
  | case1 => simp
  | case2 last => simp
  | case3 member rest hne ih => simp [ih]

theorem everyPiece_field (f : TransferField) :
    EveryPiece (Piece.Spells P) f.pieces ↔ f.type.Spells P ∧ P (.name f.name) := by
  have hattribute : EveryPiece (Piece.Spells P) (f.marshalAs.elim [] fun a => [a.pieces]) := by
    cases hmarshal : f.marshalAs with
    | none => exact everyPiece_nil
    | some a =>
      rcases a with type | ⟨length, none | type⟩ <;>
        simp [MarshalAs.pieces, or_imp, forall_and]
  simp [TransferField.pieces, hattribute, f.type.spells_iff, or_imp, forall_and]

/-- What a declaration spells is what stands in its text. The literal of a constant is a text of its
own. -/
theorem TypeDecl.spells_iff (d : TypeDecl)
    (h : ∀ type name literal, d ≠ .constant type name literal) :
    d.Spells P ↔ EveryPiece (Piece.Spells P) d.pieces := by
  cases d with
  | valueClass c => exact c.spells_iff
  | transferStruct s => simp [TypeDecl.Spells, pieces, everyPiece_field]
  | valueEnum name members => simp [TypeDecl.Spells, pieces, everyPiece_memberPieces]
  | transferEnum name members => simp [TypeDecl.Spells, pieces, everyPiece_memberPieces]
  | constant type name literal => exact absurd rfl (h type name literal)

end

end CSharp

end InteropGen

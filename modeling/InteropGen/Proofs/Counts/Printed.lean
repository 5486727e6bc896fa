import InteropGen.Proofs.Counts.Structs
import InteropGen.Proofs.Names.Lexemes

/-!
# Printed numerals

`Counts` is said of trees. Here it is said of the pieces of the printed text: the numerals of a tree
are just those that stand in its text, each a lexeme of its own.

* `Expr.counts_iff`, `bodyCounts_iff`, `TypeDecl.counts_iff` — for expressions, methods, declarations;
* `Target.Readable.numerals` — the numerals in the text of a struct, and the bounds that are printed.
-/

set_option autoImplicit false

namespace InteropGen

open CSharp Reading

namespace CSharp

/-- A numeral in a text is of the kind. What numerals a text given as it is holds is not known. -/
def Piece.Counts (P : Nat → Prop) : Piece → Prop
  | .numeral n => P n
  | .given _ => False
  | .fixed _ | .binding _ | .spelling _ => True

section
variable {P : Nat → Prop}

@[simp] theorem Piece.counts_fixed (text : String) : (Piece.fixed text).Counts P := trivial

@[simp] theorem Piece.counts_binding (name : Local) : (Piece.binding name).Counts P := trivial

instance : OfDeclarations (Piece.Counts P) := ⟨Piece.counts_fixed, Piece.counts_binding⟩

@[simp] theorem Piece.counts_spelling (s : Spelling) : (Piece.spelling s).Counts P := trivial

@[simp] theorem Piece.counts_numeral (n : Nat) : (Piece.numeral n).Counts P ↔ P n := .rfl

@[simp] theorem Piece.not_counts_given (text : String) : ¬(Piece.given text).Counts P := id

/-- A type has no numerals. -/
@[simp] theorem Ty.counts_pieces (type : Ty) : (∀ p ∈ type.pieces, p.Counts P) ↔ True := by
  induction type with
  | array element rank ih | listInterface element ih | list element ih =>
    simp [pieces, or_imp, forall_and, ih]
  | _ => simp [pieces]

@[simp] theorem Function.counts_pieces (f : Function) : (∀ p ∈ f.pieces, p.Counts P) ↔ True := by
  cases f with
  | ptrToStructure type | sizeOf type | releaseNative type =>
    simp [pieces, or_imp, forall_and]
  | _ => simp [pieces]

mutual

theorem Expr.counts_iff (e : Expr) : e.Counts P ↔ ∀ p ∈ e.pieces, p.Counts P := by
  cases e with
  | paren e | listCount e | arrayLength e | byRef e | cast type e | uncheckedCast type e =>
    simp [Expr.pieces, e.counts_iff, or_imp, forall_and]
  | index base indices =>
    simp [Expr.pieces, base.counts_iff, allCount_iff indices, or_imp, forall_and]
  | binary op left right =>
    simp [Expr.pieces, left.counts_iff, right.counts_iff, or_imp, forall_and]
  | sum terms =>
    rw [Expr.Counts, Expr.pieces, forall_mem_intercalate (by simp), allCount_iff terms]
  | conditional condition whenTrue whenFalse =>
    simp [Expr.pieces, condition.counts_iff, whenTrue.counts_iff, whenFalse.counts_iff, or_imp,
      forall_and]
  | call function arguments | newObject type arguments =>
    simp [Expr.pieces, allCount_iff arguments, or_imp, forall_and]
  | invoke receiver method arguments =>
    simp [Expr.pieces, receiver.counts_iff, allCount_iff arguments, or_imp, forall_and]
  | defaultOf type => simp [Expr.pieces, or_imp, forall_and]
  | newArray element dims inner => simp [Expr.pieces, or_imp, forall_and]
  | _ => simp [Expr.pieces]

theorem allCount_iff (es : List Expr) :
    AllCount P es ↔ ∀ item ∈ piecesOf es, ∀ p ∈ item, p.Counts P := by
  cases es with
  | nil => simp [piecesOf]
  | cons e es => rw [AllCount, piecesOf, List.forall_mem_cons, e.counts_iff, allCount_iff es]

end

mutual

theorem Stmt.counts_iff (s : Stmt) : s.Counts P ↔ EveryPiece (Piece.Counts P) s.pieces := by
  cases s with
  | assign place value =>
    simp [Stmt.pieces, place.counts_iff, value.counts_iff, or_imp, forall_and]
  | declare type name value => simp [Stmt.pieces, value.counts_iff, or_imp, forall_and]
  | run call => simp [Stmt.pieces, call.counts_iff, or_imp, forall_and]
  | block body => simp [Stmt.pieces, bodyCounts_iff body]
  | countUp depth bound body =>
    simp [Stmt.pieces, bound.counts_iff, bodyCounts_iff body, or_imp, forall_and]
  | when condition body =>
    simp [Stmt.pieces, condition.counts_iff, bodyCounts_iff body, or_imp, forall_and]
  | forEach type name list body =>
    simp [Stmt.pieces, list.counts_iff, bodyCounts_iff body, or_imp, forall_and]

theorem bodyCounts_iff (body : List Stmt) :
    BodyCounts P body ↔ EveryPiece (Piece.Counts P) (bodyPieces body) := by
  cases body with
  | nil => simp [bodyPieces]
  | cons s rest => rw [BodyCounts, bodyPieces, everyPiece_append, s.counts_iff, bodyCounts_iff rest]

end

namespace ValueClass

theorem counts_headerPieces (c : ValueClass) (direction : Direction) :
    ∀ p ∈ c.headerPieces direction, p.Counts P := by
  cases direction <;> simp [headerPieces, Direction.parameterPieces, or_imp, forall_and]

theorem counts_methodPieces (c : ValueClass) (direction : Direction) :
    EveryPiece (Piece.Counts P) (c.methodPieces direction) ↔
      ∀ body, c.body? direction = some body → BodyCounts P body := by
  unfold methodPieces
  cases hbody : c.body? direction with
  | none => simp
  | some body => simpa [bodyCounts_iff] using fun _ => c.counts_headerPieces direction

theorem counts_iff (c : ValueClass) : c.Counts P ↔ EveryPiece (Piece.Counts P) c.pieces := by
  have hproperties : ∀ property : Ty × String,
      (∀ p ∈ propertyPieces property, p.Counts P) ↔ True := by
    simp [propertyPieces, or_imp, forall_and]
  have hbodies : c.Counts P ↔
      ∀ direction body, c.body? direction = some body → BodyCounts P body := by
    rw [c.forall_bodies]
    constructor
    · intro h
      exact ⟨h.constructor, h.toNative, h.fromNative, h.releaseNative,
        fun bodies hbodies => h.codec bodies.1 bodies.2 hbodies⟩
    · rintro ⟨hinitial, hto, hfrom, hrelease, hcodec⟩
      exact ⟨hinitial, hto, hfrom, hrelease,
        fun encode decode hbodies => hcodec (encode, decode) hbodies⟩
  rw [hbodies, everyPiece_pieces]
  simp [hproperties, counts_methodPieces]

end ValueClass

theorem counts_memberPieces (members : List String) :
    EveryPiece (Piece.Counts P) (memberPieces members) := by
  fun_induction memberPieces members with
  | case1 => simp
  | case2 last => simp
  | case3 member rest hne ih => simpa using ih

theorem TransferField.counts_iff (f : TransferField) :
    (∀ length elementType, f.marshalAs = some (.byValArray length elementType) → P length) ↔
      EveryPiece (Piece.Counts P) f.pieces := by
  unfold pieces
  cases f.marshalAs with
  | none => simp [or_imp, forall_and]
  | some a =>
    rcases a with type | ⟨length, none | type⟩ <;>
      simp [MarshalAs.pieces, or_imp, forall_and]

/-- The numerals of a declaration are those in its text. -/
theorem TypeDecl.counts_iff (d : TypeDecl) : d.Counts P ↔ EveryPiece (Piece.Counts P) d.pieces := by
  cases d with
  | valueClass c => exact c.counts_iff
  | transferStruct s =>
    simp [TypeDecl.Counts, TransferStruct.Counts, pieces, ← TransferField.counts_iff]
  | valueEnum name members => simp [TypeDecl.Counts, pieces, counts_memberPieces]
  | transferEnum name members => simp [TypeDecl.Counts, pieces, counts_memberPieces]
  | constant type name literal => simp [TypeDecl.Counts, pieces, or_imp, forall_and]

theorem SourceUnit.counts_iff (u : SourceUnit) :
    u.decl.Counts P ↔ EveryPiece (Piece.Counts P) u.pieces := by
  rw [u.decl.counts_iff]
  unfold pieces
  cases u.enclosing <;> simp

end

end CSharp

/-! ## Numerals among the lexemes -/

namespace Reading

/-- A text of digits. -/
def IsDigits (text : String) : Prop :=
  text ≠ "" ∧ ∀ c ∈ text.toList, c.isDigit = true

/-- No identifier is a numeral. -/
theorem not_isDigits {text : String} (h : ∀ c ∈ text.toList.head?, c.isDigit = false) :
    ¬IsDigits text := by
  rintro ⟨hne, hdigits⟩
  obtain ⟨c, rest, htext⟩ := List.exists_cons_of_ne_nil (by simpa using hne : text.toList ≠ [])
  have hdigit := hdigits c (by simp [htext])
  rw [h c (by simp [htext])] at hdigit
  cases hdigit

end Reading

/-- Names and paths hold no numerals. -/
theorem Spelling.not_isDigits {s : Spelling} (h : s.Legible) {w : String}
    (hw : w ∈ lexemes s.text) :
    ¬IsDigits w := by
  rcases s.lexemes_text h w hw with htoken | rfl
  · cases s with
    | name n =>
      rw [List.mem_singleton.mp htoken]
      exact Reading.not_isDigits (not_isDigit_identifier h)
    | path p => exact Reading.not_isDigits (not_isDigit_of_isIdentifier (h w htoken))
  · exact Reading.not_isDigits fun c hc => by
      obtain rfl : '.' = c := Option.some.inj hc
      decide

namespace CSharp.SourceUnit

variable {style : Style} (hstem : isIdentifier style.counterStem = true) (u : SourceUnit)
  (h : u.Spells Spelling.Legible)
include hstem h

/-- A numeral of a unit is a lexeme of its text. -/
theorem numeral_printed {line : List Piece} (hline : line ∈ u.pieces) {n : Nat}
    (hn : .numeral n ∈ line) : toString n ∈ lexemes (u.text style) := by
  rw [u.lexemes_text hstem h.2]
  refine List.mem_flatMap.mpr ⟨line, hline, List.mem_flatMap.mpr ⟨_, hn, ?_⟩⟩
  rw [Piece.text, lexemes_numeral]
  exact List.mem_singleton.mpr rfl

/-- A numeral in the text of a unit is one of its tree, or stands in all code. -/
theorem numeral_lexemes {P : Nat → Prop} (hcounts : u.decl.Counts P) {w : String}
    (hw : w ∈ lexemes (u.text style)) (hdigits : IsDigits w) :
    (∃ n, P n ∧ w = toString n) ∨
      ∃ line ∈ u.pieces, ∃ text, .fixed text ∈ line ∧ w ∈ lexemes text := by
  rw [u.lexemes_text hstem h.2] at hw
  obtain ⟨line, hline, hw⟩ := List.mem_flatMap.mp hw
  obtain ⟨p, hp, hw⟩ := List.mem_flatMap.mp hw
  have hpiece := u.counts_iff.mp hcounts line hline p hp
  cases p with
  | fixed text => exact .inr ⟨line, hline, text, hp, hw⟩
  | given text => exact absurd hpiece (Piece.not_counts_given text)
  | numeral n =>
    rw [Piece.text, lexemes_numeral] at hw
    exact .inl ⟨n, hpiece, List.mem_singleton.mp hw⟩
  | binding name =>
    have hidentifier := name.isIdentifier_name hstem
    rw [Piece.text, lexemes_word (isWord_of_isIdentifier hidentifier)] at hw
    rw [List.mem_singleton.mp hw] at hdigits
    exact absurd hdigits (Reading.not_isDigits (not_isDigit_of_isIdentifier hidentifier))
  | spelling s =>
    exact absurd hdigits (Spelling.not_isDigits (u.spelled_pieces h line hline s hp) hw)

end CSharp.SourceUnit

namespace Target

variable {t : Target} {s : StructType}

/-- The numerals in the text of a struct are `int`s or bounds of its sequences, if they do not stand in
all code; and a bound that is no `int` is printed. -/
theorem Readable.numerals (h : t.Readable (.struct s)) {wireCodec : Bool} {code : DeclarationCode}
    (hcode : t.structCode wireCodec s = .ok code) {style : Style}
    (hstem : isIdentifier style.counterStem = true) :
    (∀ u ∈ code.all, ∀ w ∈ lexemes (u.text style), IsDigits w →
      (∃ n, (n ≤ 2147483647 ∨ n ∈ s.bounds) ∧ w = toString n) ∨
        ∃ line ∈ u.pieces, ∃ text, .fixed text ∈ line ∧ w ∈ lexemes text) ∧
    ∀ b ∈ s.bounds, 2147483647 < b → ∃ u ∈ code.all, toString b ∈ lexemes (u.text style) := by
  have hlegible := h.legible_code (d := .struct s) hcode
  have hfits := (code.forall_mem_all _).mpr
    ((structCode_counts_iff (P := fun n => n ≤ 2147483647 ∨ n ∈ s.bounds)
      (fun _ hn => .inl hn) hcode).mpr fun _ hb => .inr hb)
  constructor
  · intro u hu w hw hdigits
    exact u.numeral_lexemes hstem (hlegible u hu) (hfits u hu) hw hdigits
  · intro b hb hlarge
    have hdiffers : ¬code.Counts (· ≠ b) := fun hall =>
      (structCode_counts_iff (P := (· ≠ b)) (fun n hn => by omega) hcode).mp hall b hb rfl
    by_contra hnone
    refine hdiffers ((code.forall_mem_all fun u => u.decl.Counts (· ≠ b)).mp fun u hu => ?_)
    refine u.counts_iff.mpr fun line hline p hp => ?_
    cases p with
    | numeral n =>
      rintro rfl
      exact hnone ⟨u, hu, u.numeral_printed hstem (hlegible u hu) hline hp⟩
    | given text => exact absurd (u.counts_iff.mp (hfits u hu) line hline _ hp) (by simp)
    | _ => trivial

end Target

end InteropGen

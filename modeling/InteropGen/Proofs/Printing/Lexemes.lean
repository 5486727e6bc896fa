import InteropGen.Proofs.Names.Printed
import InteropGen.Proofs.Reading.Lexemes

/-!
# Lexemes of printed code

The pieces of a printed text do not run together: each begins where a lexeme begins. So the lexemes of
the text are those of its pieces, provided that declared names are identifiers.

* `Expr.cut`, `bodyPieces_cut`, `TypeDecl.cut` — the pieces of a line are cut apart;
* `SourceUnit.lexemes_text` — the lexemes of the text of a unit.
-/

set_option autoImplicit false

namespace InteropGen

open CSharp Reading

/-- Names and the segments of paths are identifiers, keywords perhaps. -/
def Spelling.Legible : Spelling → Prop
  | .path p => ∀ segment ∈ (Spelling.path p).tokens, isIdentifier segment = true
  | .name n => isIdentifier n = true

namespace Reading

theorem isWord_of_isIdentifier {text : String} (h : isIdentifier text = true) : IsWord text := by
  refine ⟨?_, fun c hc => ?_⟩
  · rintro rfl
    exact absurd h (by decide)
  · simp [isNamePart, isWordChar_of_isIdentifier h c hc]

/-- Only a digit goes on with a point. -/
theorem apart_point {text : String} (h : ∀ c ∈ text.toList.head?, c.isDigit = false) :
    Apart "." text := by
  intro x hx y hy
  obtain rfl : '.' = x := Option.some.inj hx
  simp [joined, isNamePart, isOperatorPart, h y hy, show isWordChar '.' = false by decide]

theorem isWord_identifier {name : String} (h : isIdentifier name = true) :
    IsWord (identifier name) := by
  obtain ⟨hne, hchars⟩ := isWord_of_isIdentifier h
  unfold identifier
  split
  · refine ⟨by simp, fun c hc => ?_⟩
    rw [String.toList_append] at hc
    rcases List.mem_append.mp hc with hescape | hc
    · rw [List.mem_singleton.mp hescape]
      decide
    · exact hchars c hc
  · exact ⟨hne, hchars⟩

theorem not_isDigit_identifier {name : String} (h : isIdentifier name = true) :
    ∀ c ∈ (identifier name).toList.head?, c.isDigit = false := by
  unfold identifier
  split
  · intro c hc
    rw [String.toList_append] at hc
    cases hc
    decide
  · exact not_isDigit_of_isIdentifier h

end Reading

namespace CSharp

variable {stem : String}

/-- The lexemes of a text in pieces are those of the pieces. -/
def Cut (stem : String) (pieces : List Piece) : Prop :=
  lexemes (textOf stem pieces) = pieces.flatMap fun p => lexemes (p.text stem)

theorem cut_nil : Cut stem [] := rfl

theorem cut_single (p : Piece) : Cut stem [p] := by
  simp [Cut]

theorem Cut.append {a b : List Piece} (ha : Cut stem a) (hb : Cut stem b)
    (h : Apart (textOf stem a) (textOf stem b)) : Cut stem (a ++ b) := by
  unfold Cut at ha hb ⊢
  rw [textOf_append, lexemes_append h, ha, hb, List.flatMap_append]

theorem Cut.cons {p : Piece} {rest : List Piece} (hrest : Cut stem rest)
    (h : Apart (p.text stem) (textOf stem rest)) : Cut stem (p :: rest) := by
  unfold Cut at hrest ⊢
  rw [textOf_cons, lexemes_append h, hrest, List.flatMap_cons]

/-- A text that ends in a blank or a bracket is cut from what follows. -/
theorem Cut.after {text : String} (htext : EndsLoose text) {rest : List Piece}
    (hrest : Cut stem rest) : Cut stem (.fixed text :: rest) :=
  hrest.cons (htext.apart _)

/-- A text that begins with a blank or a bracket. -/
def Opens (stem : String) (pieces : List Piece) : Prop :=
  BeginsLoose (textOf stem pieces)

theorem opens_fixed {text : String} (htext : BeginsLoose text) (hne : text ≠ "")
    (rest : List Piece) :
    Opens stem (.fixed text :: rest) := by
  intro c hc
  rw [textOf_cons, String.toList_append, List.head?_append_of_ne_nil] at hc
  · exact htext c hc
  · simpa [Piece.text] using hne

/-- A text is cut from one that begins with a blank or a bracket. -/
theorem Cut.then {a b : List Piece} (ha : Cut stem a) (hb : Cut stem b) (hopens : Opens stem b) :
    Cut stem (a ++ b) :=
  ha.append hb (hopens.apart _)

/-- A piece is cut from a text that begins with a blank or a bracket. -/
theorem Cut.before {p : Piece} {rest : List Piece} (hrest : Cut stem rest)
    (hopens : Opens stem rest) : Cut stem (p :: rest) :=
  hrest.cons (hopens.apart _)

/-- A member is cut from the point before it. -/
theorem cut_member {p : Piece} (h : ∀ c ∈ (p.text stem).toList.head?, c.isDigit = false) :
    Cut stem [.fixed ".", p] := by
  refine (cut_single p).cons ?_
  rw [textOf_cons, textOf_nil, String.append_empty]
  exact apart_point h

theorem cut_fixed_member {name : String} (h : isIdentifier name = true) :
    Cut stem [.fixed ".", .fixed name] :=
  cut_member (p := .fixed name) (not_isDigit_of_isIdentifier h)

theorem cut_intercalate {text : String} (htext : BeginsLoose text) (hne : text ≠ "")
    {more : List Piece} (hseparator : Cut stem (.fixed text :: more))
    (hends : EndsLoose (textOf stem (.fixed text :: more))) {items : List (List Piece)}
    (hitems : ∀ item ∈ items, Cut stem item) :
    Cut stem ((.fixed text :: more : List Piece).intercalate items) := by
  induction items with
  | nil => exact cut_nil
  | cons first rest ih =>
    obtain ⟨hfirst, hrest⟩ := List.forall_mem_cons.mp hitems
    cases rest with
    | nil => simpa using hfirst
    | cons second tail =>
      rw [List.intercalate_cons_cons, List.append_assoc]
      exact hfirst.then (hseparator.append (ih hrest) (hends.apart _)) (opens_fixed htext hne _)

theorem cut_listed {items : List (List Piece)} (hitems : ∀ item ∈ items, Cut stem item) :
    Cut stem (listed items) := by
  refine cut_intercalate (by decide) (by decide) (cut_single _) ?_ hitems
  rw [textOf_fixed]
  decide

/-- A text in brackets or parentheses. -/
theorem Cut.enclosed {pieces : List Piece} (h : Cut stem pieces) {opening closing : String}
    (hopening : EndsLoose opening) (hclosing : BeginsLoose closing) (hne : closing ≠ "") :
    Cut stem (.fixed opening :: pieces ++ [.fixed closing]) :=
  (h.after hopening).then (cut_single _) (opens_fixed hclosing hne [])

/-- An operator with a blank on either side. -/
theorem Cut.operator {a b : List Piece} (ha : Cut stem a) (hb : Cut stem b) (operator : String) :
    Cut stem (a ++ .fixed " " :: .fixed operator :: .fixed " " :: b) :=
  ha.then
    (((hb.after (by decide)).before (opens_fixed (by decide) (by decide) _)).after (by decide))
    (opens_fixed (by decide) (by decide) _)

/-! ## Types and expressions -/

theorem Ty.cut (type : Ty) : Cut stem type.pieces := by
  induction type with
  | array element rank ih =>
    have hclosing : Cut stem
        [.fixed (String.ofList (List.replicate (rank - 1) ',')), .fixed "]"] :=
      (cut_single _).before (opens_fixed (by decide) (by decide) [])
    exact ih.then (hclosing.after (by decide)) (opens_fixed (by decide) (by decide) _)
  | listInterface element ih | list element ih =>
    exact (ih.enclosed (by decide) (by decide) (by decide)).before
      (opens_fixed (by decide) (by decide) _)
  | _ => exact cut_single _

theorem Function.cut (f : Function) : Cut stem f.pieces := by
  cases f with
  | ptrToStructure type | sizeOf type =>
    exact (type.cut.enclosed (by decide) (by decide) (by decide)).before
      (opens_fixed (by decide) (by decide) _)
  | releaseNative type =>
    exact type.cut.then (cut_fixed_member (by decide)) (opens_fixed (by decide) (by decide) _)
  | _ => exact cut_single _

/-- The names of methods are identifiers. -/
theorem Method.isIdentifier_text (method : Method) : isIdentifier method.text = true := by
  have htag : ∀ (tag : WireTag), ∀ c ∈ tag.text.toList, isWordChar c = true := by
    intro tag
    refine List.all_eq_true.mp ?_
    cases tag <;> decide
  have hform : ∀ (form : WireForm), ∀ c ∈ form.text.toList, isWordChar c = true := by
    intro form
    refine List.all_eq_true.mp ?_
    cases form <;> decide
  cases method with
  | write tag form =>
    exact isIdentifier_append (isIdentifier_append (by decide) (htag tag)) (hform form)
  | read tag form =>
    exact isIdentifier_append (isIdentifier_append (by decide) (htag tag)) (hform form)
  | _ => decide

/-- So are those of local variables. -/
theorem Local.isIdentifier_name (hstem : isIdentifier stem = true)
    (name : Local) : isIdentifier (name.name stem) = true := by
  cases name with
  | counter depth =>
    exact isIdentifier_append hstem fun c hc => isWordChar_digits depth c (by simpa using hc)
  | _ =>
    rw [Local.name]
    decide

mutual

/-- The pieces of an expression are cut apart. -/
theorem Expr.cut (e : Expr) (h : e.Spells Spelling.Legible) : Cut stem e.pieces := by
  cases e with
  | field owner name =>
    have hname : Spelling.Legible (.name name) := h
    rw [Expr.pieces]
    exact (cut_member (p := .spelling (.name name)) (not_isDigit_identifier hname)).before
      (opens_fixed (by decide) (by decide) _)
  | paren inner =>
    rw [Expr.pieces]
    exact (inner.cut h).enclosed (by decide) (by decide) (by decide)
  | index base indices =>
    rw [Expr.pieces, List.append_assoc]
    exact (base.cut h.1).then
      ((cut_listed (piecesOf_cut indices h.2)).enclosed (by decide) (by decide) (by decide))
      (opens_fixed (by decide) (by decide) _)
  | listCount e | arrayLength e =>
    rw [Expr.pieces]
    exact (e.cut h).then (cut_fixed_member (by decide)) (opens_fixed (by decide) (by decide) _)
  | cast type operand =>
    rw [Expr.pieces]
    exact (type.cut.after (by decide)).then ((operand.cut h.2).after (by decide))
      (opens_fixed (by decide) (by decide) _)
  | uncheckedCast type operand =>
    rw [Expr.pieces]
    exact (((type.cut.after (by decide)).then ((operand.cut h.2).after (by decide))
      (opens_fixed (by decide) (by decide) _)).enclosed (by decide) (by decide) (by decide)).before
      (opens_fixed (by decide) (by decide) _)
  | binary op left right =>
    rw [Expr.pieces]
    exact (left.cut h.1).operator (right.cut h.2) op.text
  | sum terms =>
    have hplus : Cut stem [.fixed " ", .fixed "+", .fixed " "] :=
      ((cut_single _).before (opens_fixed (by decide) (by decide) _)).after (by decide)
    have hends : EndsLoose (textOf stem [.fixed " ", .fixed "+", .fixed " "]) :=
      (by decide : EndsLoose " + ")
    rw [Expr.pieces]
    exact cut_intercalate (by decide) (by decide) hplus hends (piecesOf_cut terms h)
  | conditional condition whenTrue whenFalse =>
    rw [Expr.pieces]
    exact ((condition.cut h.1).operator (whenTrue.cut h.2.1) "?").operator (whenFalse.cut h.2.2) ":"
  | byRef place =>
    rw [Expr.pieces]
    exact ((place.cut h).after (by decide)).before (opens_fixed (by decide) (by decide) _)
  | call function arguments =>
    rw [Expr.pieces, List.append_assoc]
    exact function.cut.then
      ((cut_listed (piecesOf_cut arguments h.2)).enclosed (by decide) (by decide) (by decide))
      (opens_fixed (by decide) (by decide) _)
  | invoke receiver method arguments =>
    have harguments : Cut stem (.fixed "(" :: listed (piecesOf arguments) ++ [.fixed ")"]) :=
      (cut_listed (piecesOf_cut arguments h.2)).enclosed (by decide) (by decide) (by decide)
    have hmember : Cut stem [.fixed ".", .fixed method.text] :=
      cut_fixed_member method.isIdentifier_text
    rw [Expr.pieces, List.append_assoc]
    exact (receiver.cut h.1).then
      (hmember.then harguments (opens_fixed (by decide) (by decide) _))
      (opens_fixed (by decide) (by decide) _)
  | defaultOf type =>
    rw [Expr.pieces]
    exact (type.cut.enclosed (by decide) (by decide) (by decide)).before
      (opens_fixed (by decide) (by decide) _)
  | newObject type arguments =>
    have harguments : Cut stem (.fixed "(" :: listed (piecesOf arguments) ++ [.fixed ")"]) :=
      (cut_listed (piecesOf_cut arguments h.2)).enclosed (by decide) (by decide) (by decide)
    rw [Expr.pieces, List.append_assoc]
    exact ((type.cut.after (by decide)).before (opens_fixed (by decide) (by decide) _)).then
      harguments (opens_fixed (by decide) (by decide) _)
  | newArray element dims inner =>
    have hdims : Cut stem (listed (dims.map fun d => [.numeral d])) :=
      cut_listed (List.forall_mem_map.mpr fun d _ => cut_single _)
    have hclosing : Cut stem [.fixed "]", .fixed (brackets inner)] :=
      (cut_single _).after (by decide)
    rw [Expr.pieces, List.append_assoc]
    exact ((element.cut.after (by decide)).before (opens_fixed (by decide) (by decide) _)).then
      ((hdims.after (by decide)).then hclosing (opens_fixed (by decide) (by decide) _))
      (opens_fixed (by decide) (by decide) _)
  | _ => exact cut_single _

theorem piecesOf_cut (es : List Expr) (h : AllSpell Spelling.Legible es) :
    ∀ item ∈ piecesOf es, Cut stem item := by
  cases es with
  | nil => nofun
  | cons e es =>
    rw [piecesOf]
    exact List.forall_mem_cons.mpr ⟨e.cut h.1, piecesOf_cut es h.2⟩

end

/-! ## Statements and declarations -/

/-- The pieces of every line are cut apart. -/
def LinesCut (stem : String) (lines : List (List Piece)) : Prop :=
  ∀ line ∈ lines, Cut stem line

@[simp] theorem linesCut_nil : LinesCut stem [] := nofun

@[simp] theorem linesCut_cons (line : List Piece) (rest : List (List Piece)) :
    LinesCut stem (line :: rest) ↔ Cut stem line ∧ LinesCut stem rest :=
  List.forall_mem_cons

@[simp] theorem linesCut_append (a b : List (List Piece)) :
    LinesCut stem (a ++ b) ↔ LinesCut stem a ∧ LinesCut stem b :=
  List.forall_mem_append

theorem LinesCut.inBraces {lines : List (List Piece)} (h : LinesCut stem lines) :
    LinesCut stem (inBraces lines) := by
  simp [CSharp.inBraces, h, cut_single]

theorem counter_ne_empty (stem : String) (depth : Nat) : (Local.counter depth).name stem ≠ "" := by
  simpa [counterWord] using counterWord_ne_nil stem depth

/-- The sign of an increment is cut from the counter behind it. -/
theorem apart_increment (hstem : isIdentifier stem = true) (depth : Nat) :
    Apart "++" ((Local.counter depth).name stem) := by
  intro x hx y hy
  obtain rfl : '+' = x := Option.some.inj hx
  have hoperator := not_isOperatorPart_of_isWordChar
    (isWordChar_counterWord hstem depth y (List.mem_of_mem_head? hy))
  simp [joined, hoperator, isNamePart, show isWordChar '+' = false by decide]

mutual

theorem Stmt.cut (hstem : isIdentifier stem = true) (s : Stmt) (h : s.Spells Spelling.Legible) :
    LinesCut stem s.pieces := by
  cases s with
  | assign place value =>
    refine (linesCut_cons _ _).mpr ⟨?_, linesCut_nil⟩
    exact ((place.cut h.1).then ((value.cut h.2).after (by decide))
      (opens_fixed (by decide) (by decide) _)).then (cut_single _)
      (opens_fixed (by decide) (by decide) _)
  | declare type name value =>
    refine (linesCut_cons _ _).mpr ⟨?_, linesCut_nil⟩
    exact (type.cut.then ((((value.cut h.2).after (by decide)).before
      (opens_fixed (by decide) (by decide) _)).after (by decide))
      (opens_fixed (by decide) (by decide) _)).then (cut_single _)
      (opens_fixed (by decide) (by decide) _)
  | run call =>
    refine (linesCut_cons _ _).mpr ⟨?_, linesCut_nil⟩
    exact (call.cut h).then (cut_single _) (opens_fixed (by decide) (by decide) _)
  | block body => exact (bodyPieces_cut hstem body h).inBraces
  | countUp depth bound body =>
    have hless : Cut stem (.binding (.counter depth) :: .fixed " < " :: bound.pieces) :=
      ((bound.cut h.1).after (by decide)).before (opens_fixed (by decide) (by decide) _)
    have hzero : Cut stem (.binding (.counter depth) :: .fixed " = 0; " ::
        .binding (.counter depth) :: .fixed " < " :: bound.pieces) :=
      (hless.after (by decide)).before (opens_fixed (by decide) (by decide) _)
    have hstart : Cut stem (.fixed "for" :: .fixed " (" :: .fixed "int" :: .fixed " " ::
        .binding (.counter depth) :: .fixed " = 0; " :: .binding (.counter depth) ::
        .fixed " < " :: bound.pieces) :=
      (((hzero.after (by decide)).before (opens_fixed (by decide) (by decide) _)).after
        (by decide)).before (opens_fixed (by decide) (by decide) _)
    have hnext : Cut stem [.fixed "++", .binding (.counter depth), .fixed ")"] := by
      refine ((cut_single _).before (opens_fixed (by decide) (by decide) _)).cons ?_
      rw [textOf_cons]
      exact (apart_increment hstem depth).append (counter_ne_empty stem depth) _
    refine (linesCut_cons _ _).mpr ⟨?_, (bodyPieces_cut hstem body h.2).inBraces⟩
    exact hstart.then (hnext.after (by decide)) (opens_fixed (by decide) (by decide) _)
  | when condition body =>
    refine (linesCut_cons _ _).mpr ⟨?_, (bodyPieces_cut hstem body h.2).inBraces⟩
    exact ((condition.cut h.1).enclosed (by decide) (by decide) (by decide)).before
      (opens_fixed (by decide) (by decide) _)
  | forEach type name list body =>
    have hlist : Cut stem (.fixed " " :: .binding name :: .fixed " in " :: list.pieces) :=
      ((((list.cut h.2.1).after (by decide)).before (opens_fixed (by decide) (by decide) _)).after
        (by decide))
    refine (linesCut_cons _ _).mpr ⟨?_, (bodyPieces_cut hstem body h.2.2).inBraces⟩
    exact (((type.cut.after (by decide)).before (opens_fixed (by decide) (by decide) _)).then hlist
      (opens_fixed (by decide) (by decide) _)).then (cut_single _)
      (opens_fixed (by decide) (by decide) _)

theorem bodyPieces_cut (hstem : isIdentifier stem = true) (body : List Stmt)
    (h : BodySpells Spelling.Legible body) : LinesCut stem (bodyPieces body) := by
  cases body with
  | nil => exact linesCut_nil
  | cons s rest => exact (linesCut_append _ _).mpr ⟨s.cut hstem h.1, bodyPieces_cut hstem rest h.2⟩

end

theorem LinesCut.inRegion {members : List (List (List Piece))} (h : ∀ m ∈ members, LinesCut stem m)
    (title : String) : LinesCut stem (inRegion title members) := by
  have hmembers : LinesCut stem (members.flatMap (· ++ [[]])) := by
    intro line hline
    obtain ⟨member, hmember, hmem⟩ := List.mem_flatMap.mp hline
    rcases List.mem_append.mp hmem with hmem | hmem
    · exact h member hmember line hmem
    · rw [List.mem_singleton.mp hmem]
      exact cut_nil
  simp [CSharp.inRegion, hmembers, cut_single, cut_nil]

namespace ValueClass

variable (c : ValueClass)

theorem headerPieces_cut (direction : Direction) : Cut stem (c.headerPieces direction) := by
  have hnamed : ∀ (p : Piece) (name : Local), Cut stem [p, .fixed " ", .binding name] :=
    fun p name => ((cut_single _).after (by decide)).before (opens_fixed (by decide) (by decide) _)
  have hparameters : Cut stem (listed (direction.parameterPieces c.transferName)) := by
    refine cut_listed fun item hitem => ?_
    cases direction <;>
      simp only [Direction.parameterPieces, List.mem_cons, List.not_mem_nil, or_false] at hitem
    case toTransfer | release =>
      rcases hitem with rfl | rfl
      · exact (hnamed _ .wrapper).after (by decide)
      · exact hnamed _ .toRelease
    all_goals
      subst hitem
      exact hnamed _ _
  have henclosed : Cut stem (.fixed "(" :: listed (direction.parameterPieces c.transferName) ++
      [.fixed ")"]) :=
    hparameters.enclosed (by decide) (by decide) (by decide)
  have hopens : Opens stem (.fixed "(" :: listed (direction.parameterPieces c.transferName) ++
      [.fixed ")"]) :=
    opens_fixed (by decide) (by decide) _
  unfold headerPieces
  rw [List.append_assoc]
  cases direction
  case initial => exact ((cut_single _).after (by decide)).then henclosed hopens
  all_goals exact (cut_single _).then henclosed hopens

theorem methodPieces_cut (hstem : isIdentifier stem = true)
    (h : (TypeDecl.valueClass c).Spells Spelling.Legible) (direction : Direction) :
    LinesCut stem (c.methodPieces direction) := by
  obtain ⟨-, -, -, hbodies⟩ := c.spells_bodies.mp h
  unfold methodPieces
  cases hbody : c.body? direction with
  | none => exact linesCut_nil
  | some body =>
    exact (linesCut_cons _ _).mpr ⟨c.headerPieces_cut direction,
      (bodyPieces_cut hstem body (hbodies direction body hbody)).inBraces⟩

theorem cut (hstem : isIdentifier stem = true)
    (h : (TypeDecl.valueClass c).Spells Spelling.Legible) : LinesCut stem c.pieces := by
  have hmethods := c.methodPieces_cut hstem h
  have hregion : ∀ title (directions : List Direction),
      LinesCut stem (inRegion title (directions.map c.methodPieces)) := fun title directions =>
    LinesCut.inRegion (List.forall_mem_map.mpr fun d _ => hmethods d) title
  have hproperties : LinesCut stem (c.properties.map propertyPieces) := by
    refine List.forall_mem_map.mpr fun property _ => ?_
    exact (property.1.cut.after (by decide)).then
      (((cut_single _).before (opens_fixed (by decide) (by decide) _)).after (by decide))
      (opens_fixed (by decide) (by decide) _)
  have hmarshaling := hregion "Marshaling" [.toTransfer, .fromTransfer, .release]
  have hserialization := hregion "Serialization" [.encode, .decode]
  unfold pieces
  refine (linesCut_cons _ _).mpr ⟨(cut_single _).after (by decide), LinesCut.inBraces ?_⟩
  simp only [List.map_cons, List.map_nil] at hmarshaling hserialization
  split <;> split <;>
    simp [hproperties, hmethods, hmarshaling, hserialization, cut_nil]

end ValueClass

theorem memberPieces_cut (members : List String) : LinesCut stem (memberPieces members) := by
  fun_induction memberPieces members with
  | case1 => exact linesCut_nil
  | case2 last => exact List.forall_mem_singleton.mpr (cut_single _)
  | case3 member rest hne ih =>
    exact (linesCut_cons _ _).mpr
      ⟨(cut_single _).before (opens_fixed (by decide) (by decide) _), ih⟩

theorem TransferField.cut (f : TransferField) : LinesCut stem f.pieces := by
  have hdeclaration : Cut stem
      (.fixed "public " :: f.type.pieces ++ [.fixed " ", .spelling (.name f.name), .fixed ";"]) :=
    (f.type.cut.after (by decide)).then
      (((cut_single _).before (opens_fixed (by decide) (by decide) _)).after (by decide))
      (opens_fixed (by decide) (by decide) _)
  have hattribute : LinesCut stem (f.marshalAs.elim [] fun a => [a.pieces]) := by
    cases f.marshalAs with
    | none => exact linesCut_nil
    | some a =>
      refine List.forall_mem_singleton.mpr ?_
      rcases a with type | ⟨length, none | type⟩
      · exact cut_single _
      · exact ((cut_single _).before (opens_fixed (by decide) (by decide) _)).after (by decide)
      · have hopens : Opens stem [.fixed (", ArraySubType = UnmanagedType." ++ type.text ++ ")]")] :=
          opens_fixed (by cases type <;> decide) (by cases type <;> decide) _
        exact ((cut_single _).before hopens).after (by decide)
  exact (linesCut_append _ _).mpr ⟨hattribute, List.forall_mem_singleton.mpr hdeclaration⟩

/-- The pieces of every line of a declaration are cut apart. -/
theorem TypeDecl.cut (hstem : isIdentifier stem = true) (d : TypeDecl)
    (h : d.Spells Spelling.Legible) : LinesCut stem d.pieces := by
  cases d with
  | valueClass c => exact c.cut hstem h
  | transferStruct s =>
    have hfields : LinesCut stem (s.fields.flatMap (·.pieces)) := by
      intro line hline
      obtain ⟨f, -, hmem⟩ := List.mem_flatMap.mp hline
      exact f.cut line hmem
    exact (linesCut_cons _ _).mpr ⟨cut_single _,
      (linesCut_cons _ _).mpr ⟨(cut_single _).after (by decide), hfields.inBraces⟩⟩
  | valueEnum name members =>
    exact (linesCut_cons _ _).mpr
      ⟨(cut_single _).after (by decide), (memberPieces_cut members).inBraces⟩
  | transferEnum name members =>
    exact (linesCut_cons _ _).mpr
      ⟨((cut_single _).before (opens_fixed (by decide) (by decide) _)).after (by decide),
        (memberPieces_cut members).inBraces⟩
  | constant type name literal =>
    have hliteral : Cut stem
        [.fixed " ", .spelling (.name name), .fixed " = ", .given literal, .fixed ";"] :=
      (((((cut_single _).before (opens_fixed (by decide) (by decide) _)).after (by decide)).before
        (opens_fixed (by decide) (by decide) _)).after (by decide))
    have hline : Cut stem (.fixed "public const " :: type.pieces ++
        [.fixed " ", .spelling (.name name), .fixed " = ", .given literal, .fixed ";"]) :=
      (type.cut.after (by decide)).then hliteral (opens_fixed (by decide) (by decide) _)
    exact (linesCut_cons _ _).mpr
      ⟨cut_single _, LinesCut.inBraces (List.forall_mem_singleton.mpr hline)⟩

theorem SourceUnit.cut (hstem : isIdentifier stem = true) (u : SourceUnit)
    (h : u.decl.Spells Spelling.Legible) : LinesCut stem u.pieces := by
  have hdecl := u.decl.cut hstem h
  unfold pieces
  cases u.enclosing with
  | none => exact hdecl
  | some path => exact (linesCut_cons _ _).mpr ⟨(cut_single _).after (by decide), hdecl.inBraces⟩

end CSharp

namespace Reading

/-- Indentation is no lexeme. -/
theorem lexemes_spaces (n : Nat) (text : String) :
    lexemes (String.ofList (List.replicate n ' ') ++ text) = lexemes text := by
  have hspace : ∀ rest, lexemes (" " ++ rest) = lexemes rest := by
    intro rest
    rw [lexemes_append (EndsLoose.apart (by decide) rest)]
    rfl
  induction n with
  | zero => simp
  | succ n ih =>
    rw [List.replicate_succ, show ' ' :: List.replicate n ' ' = [' '] ++ List.replicate n ' ' from rfl,
      String.ofList_append, String.append_assoc]
    exact (hspace _).trans ih

theorem lexemes_render (indentWidth : Nat) (line : Line) (rest : String) :
    lexemes (line.render indentWidth ++ rest) = lexemes line.text ++ lexemes rest := by
  have hend : lexemes ("\n" ++ rest) = lexemes rest := by
    rw [lexemes_append (EndsLoose.apart (by decide) rest)]
    rfl
  have hbegin : BeginsLoose ("\n" ++ rest) := by
    intro c hc
    rw [String.toList_append] at hc
    cases hc
    decide
  unfold Line.render
  split
  · rename_i hempty
    rw [hend, hempty]
    rfl
  · rw [String.append_assoc, String.append_assoc, lexemes_spaces,
      lexemes_append (hbegin.apart _), hend]

theorem lexemes_renderLines (indentWidth : Nat) (lines : List Line) :
    lexemes (renderLines indentWidth lines) = lines.flatMap fun line => lexemes line.text := by
  unfold renderLines
  induction lines with
  | nil => rfl
  | cons line rest ih =>
    rw [List.map_cons, String.join_cons, lexemes_render, ih, List.flatMap_cons]

end Reading

/-- The lexemes of the text of a unit are those of its pieces. -/
theorem CSharp.SourceUnit.lexemes_text {style : Style}
    (hstem : isIdentifier style.counterStem = true) (u : SourceUnit)
    (h : u.decl.Spells Spelling.Legible) :
    lexemes (u.text style) =
      u.pieces.flatMap fun line => line.flatMap fun p => lexemes (p.text style.counterStem) := by
  have hlines : (u.lines style.counterStem).flatMap (fun line => lexemes line.text) =
      u.pieces.flatMap fun line => lexemes (textOf style.counterStem line) := by
    simpa only [List.flatMap_map] using
      congrArg (List.flatMap lexemes) (u.lines_text style.counterStem)
  unfold SourceUnit.text
  rw [lexemes_renderLines, hlines]
  exact List.flatMap_congr fun line hline => u.cut hstem h line hline

end InteropGen

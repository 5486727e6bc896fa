import InteropGen.Proofs.Names.Lexemes
import InteropGen.Proofs.Reading.Operators

/-!
# Printed expressions by precedence

An expression is printed without parentheses of its own. So its text has the structure of the tree
only if each operand binds tighter than the operator that it belongs to. `Expr.Grouped` says that it
does; what is read from the text is then the tree of the expression.

* `Expr.reads` — an expression is read as its tree in every place that its precedence allows;
* `Expr.readTree?_text` — the same for a text of its own;
* `assignment_reads` — an assignment is read as one.
-/

set_option autoImplicit false

namespace InteropGen

open CSharp Reading

/-- A spelling of identifiers, with no keyword among its tokens. -/
def Spelling.Unreserved (s : Spelling) : Prop :=
  s.Legible ∧ ∀ token ∈ s.tokens, token ∉ keywords

namespace Reading

/-- The tree of a path. -/
def Tree.path : List String → Tree
  | [] => .word ""
  | first :: rest => rest.foldl .member (.word first)

theorem isType_foldl (x : Tree) (rest : List String) :
    (rest.foldl Tree.member x).isType = x.isType := by
  induction rest generalizing x with
  | nil => rfl
  | cons s more ih => exact ih _

theorem isType_path (segments : List String) : (Tree.path segments).isType = true := by
  cases segments with
  | nil => rfl
  | cons first rest => exact isType_foldl _ _

/-- Members one after the other. -/
theorem ReadsAs.members {p : Nat} {ls : List String} {x : Tree} (h : ReadsAs p ls x) (hp : 9 ≤ p)
    {rest : List String} (hrest : ∀ s ∈ rest, IsWord s) :
    ReadsAs p (ls ++ rest.flatMap fun s => [".", s]) (rest.foldl .member x) := by
  induction rest generalizing ls x with
  | nil => simpa using h
  | cons s more ih =>
    obtain ⟨hs, hmore⟩ := List.forall_mem_cons.mp hrest
    have hfirst := ih (h.member hp hs) hmore
    rwa [List.append_assoc] at hfirst

theorem IsWord.plain {s : String} (hword : IsWord s) (h : s ∉ keywords) : IsPlain s := by
  refine ⟨hword, ?_, ?_⟩
  · rintro rfl
    simp [keywords] at h
  · rintro rfl
    simp [keywords] at h

/-- A path is read as the tree of its segments, unless it begins with an operator of its own. -/
theorem reads_path {p : String} (h : (Spelling.path p).Legible)
    (hfirst : ∀ s ∈ (Spelling.path p).tokens.head?, IsPlain s) :
    ReadsAs 10 (lexemes p) (.path (Spelling.path p).tokens) := by
  obtain ⟨first, rest, htokens⟩ := List.exists_cons_of_ne_nil (Spelling.path p).tokens_ne_nil
  have hwords : ∀ s ∈ rest, IsWord s := fun s hs =>
    isWord_of_isIdentifier (h s (htokens ▸ List.mem_cons_of_mem _ hs))
  have hplain : IsPlain first := hfirst first (by rw [htokens]; rfl)
  rw [Spelling.lexemes_path htokens h, htokens]
  exact (reads_word hplain).members (by decide) hwords

/-- Sums group to the left. -/
def Tree.sum : List Tree → Tree
  | [] => .word ""
  | first :: rest => rest.foldl (.binary .plus) first

/-- A separated list, item by item. -/
theorem intercalate_cons_flatMap {α : Type} (separator first : List α) (rest : List (List α)) :
    separator.intercalate (first :: rest) = first ++ rest.flatMap (separator ++ ·) := by
  induction rest generalizing first with
  | nil => simp
  | cons second more ih => simp [List.intercalate_cons_cons, ih]

theorem ReadsAs.sum {ls : List String} {x : Tree} (h : ReadsAs 6 ls x) {lss : List (List String)}
    {xs : List Tree} (hterms : List.Forall₂ (ReadsAs 7) lss xs) :
    ReadsAs 6 (["+"].intercalate (ls :: lss)) (.sum (x :: xs)) := by
  rw [intercalate_cons_flatMap]
  induction hterms generalizing ls x with
  | nil => simpa [Tree.sum] using h
  | @cons second y rest ys hsecond _ ih =>
    have hpair : ReadsAs 6 (ls ++ "+" :: second) (.binary .plus x y) :=
      h.binary .plus hsecond
    have hall := ih hpair
    rwa [List.append_assoc, List.cons_append] at hall

end Reading

namespace CSharp

variable (stem : String)

/-! ## Trees -/

/-- The tree of a type. Array types do not occur in expressions. -/
def Ty.tree : Ty → Tree
  | builtin type => .word type.text
  | string => .word "string"
  | intPtr => .word "IntPtr"
  | named path => .path (Spelling.path path).tokens
  | array element _ => element.tree
  | listInterface element => .apply .angle (.word "IList") [element.tree]
  | list element => .apply .angle (.word "List") [element.tree]

def Function.tree : Function → Tree
  | ptrToStructure type => .apply .angle (.path ["Marshal", "PtrToStructure"]) [type.tree]
  | sizeOf type => .apply .angle (.path ["Marshal", "SizeOf"]) [type.tree]
  | releaseNative type => .member type.tree "ReleaseNative"
  | f => .path (Spelling.path f.text).tokens

def Constant.tree : Constant → Tree
  | zeroHandle => .path ["IntPtr", "Zero"]
  | emptyString => .path ["string", "Empty"]
  | sizeOfHandle => .path ["IntPtr", "Size"]
  | sizeOfInt => .apply .round (.word "sizeof") [.word "int"]
  | c => .word c.text

def BinaryOp.operator : BinaryOp → Operator
  | times => .times | equal => .equal | unequal => .unequal | coalesce => .coalesce

/-- Brackets behind an array creation. -/
def rowTree : (n : Nat) → Tree → Tree
  | 0, x => x
  | n + 1, x => rowTree n (.apply .square x [])

mutual

/-- The tree of an expression. -/
def Expr.tree : Expr → Tree
  | .var name => .word (name.name stem)
  | .field owner name => .member (.word owner.text) (identifier name)
  | .spelled text => .word text
  | .nat n => .word (toString n)
  | .constant c => c.tree
  | .paren inner => .group inner.tree
  | .index base indices => .apply .square base.tree (trees indices)
  | .listCount list => .member list.tree "Count"
  | .arrayLength array => .member array.tree "Length"
  | .cast type operand => .cast type.tree operand.tree
  | .uncheckedCast type operand =>
    .apply .round (.word "unchecked") [.cast type.tree operand.tree]
  | .binary op left right => .binary op.operator left.tree right.tree
  | .sum terms => .sum (trees terms)
  | .conditional condition whenTrue whenFalse =>
    .conditional condition.tree whenTrue.tree whenFalse.tree
  | .byRef place => .reference place.tree
  | .call function arguments => .apply .round function.tree (trees arguments)
  | .invoke receiver method arguments =>
    .apply .round (.member receiver.tree method.text) (trees arguments)
  | .defaultOf type => .apply .round (.word "default") [type.tree]
  | .newObject type arguments => .creation (.apply .round type.tree (trees arguments))
  | .newArray element dims inner =>
    rowTree inner (.creation (.apply .square element.tree (dims.map fun d => .word (toString d))))

def trees : List Expr → List Tree
  | [] => []
  | e :: es => e.tree :: trees es

end

/-! ## Precedence -/

/-- How tightly an expression is held together. -/
def Expr.precedence : Expr → Nat
  | .cast _ _ => 8
  | .binary op _ _ => op.operator.level
  | .sum _ => 6
  | .conditional _ _ _ => 3
  | .byRef _ => 1
  | _ => 9

/-- A type without arrays. -/
@[simp] def Ty.Flat : Ty → Prop
  | array _ _ => False
  | listInterface element | list element => element.Flat
  | _ => True

/-- The type that a function is told apart by. -/
def Function.type? : Function → Option Ty
  | ptrToStructure type | sizeOf type | releaseNative type => some type
  | _ => none

theorem BinaryOp.level_pos (op : BinaryOp) : 1 ≤ op.operator.level := by
  cases op <;> decide

theorem Expr.precedence_pos (e : Expr) : 1 ≤ e.precedence := by
  cases e with
  | binary op left right => exact op.level_pos
  | _ => simp [precedence]

mutual

/-- Every operand is held together more tightly than its operator asks. -/
@[simp] def Expr.Grouped : Expr → Prop
  | .var _ | .field _ _ | .nat _ | .constant _ => True
  | .spelled _ => False
  | .paren e | .byRef e => e.Grouped
  | .index base indices => base.Grouped ∧ 9 ≤ base.precedence ∧ AllGrouped indices
  | .listCount e | .arrayLength e => e.Grouped ∧ 9 ≤ e.precedence
  | .cast type e | .uncheckedCast type e => type.Flat ∧ e.Grouped ∧ 8 ≤ e.precedence
  | .binary op left right =>
    left.Grouped ∧ right.Grouped ∧ op.operator.left ≤ left.precedence ∧
      op.operator.right ≤ right.precedence
  | .sum terms => terms ≠ [] ∧ AllGrouped terms ∧ ∀ e ∈ terms, 7 ≤ e.precedence
  | .conditional condition whenTrue whenFalse =>
    condition.Grouped ∧ whenTrue.Grouped ∧ whenFalse.Grouped ∧ 4 ≤ condition.precedence ∧
      3 ≤ whenTrue.precedence ∧ 3 ≤ whenFalse.precedence
  | .call f arguments => (∀ type ∈ f.type?, type.Flat) ∧ AllGrouped arguments
  | .invoke receiver _ arguments =>
    receiver.Grouped ∧ 9 ≤ receiver.precedence ∧ AllGrouped arguments
  | .defaultOf type => type.Flat
  | .newObject type arguments => type.Flat ∧ AllGrouped arguments
  | .newArray element _ _ => element.Flat

@[simp] def AllGrouped : List Expr → Prop
  | [] => True
  | e :: es => e.Grouped ∧ AllGrouped es

end

/-! ## Reading the printed expression -/

/-- The lexemes of pieces. -/
def wordsOf (pieces : List Piece) : List String :=
  pieces.flatMap fun p => lexemes (p.text stem)

variable {stem}

@[simp] theorem wordsOf_nil : wordsOf stem [] = [] := rfl

@[simp] theorem wordsOf_cons (p : Piece) (rest : List Piece) :
    wordsOf stem (p :: rest) = lexemes (p.text stem) ++ wordsOf stem rest :=
  List.flatMap_cons

@[simp] theorem wordsOf_append (a b : List Piece) :
    wordsOf stem (a ++ b) = wordsOf stem a ++ wordsOf stem b :=
  List.flatMap_append

theorem wordsOf_intercalate (separator : List Piece) (items : List (List Piece)) :
    wordsOf stem (separator.intercalate items) =
      (wordsOf stem separator).intercalate (items.map (wordsOf stem)) := by
  cases items with
  | nil => rfl
  | cons first rest =>
    rw [intercalate_cons_flatMap, List.map_cons, intercalate_cons_flatMap, wordsOf_append]
    induction rest with
    | nil => rfl
    | cons second more ih => simpa using ih

/-- Signs that stand between the parts of an expression. -/
theorem lexemes_signs : lexemes "(" = ["("] ∧ lexemes ")" = [")"] ∧ lexemes "[" = ["["] ∧
    lexemes "]" = ["]"] ∧ lexemes "<" = ["<"] ∧ lexemes ">" = [">"] ∧ lexemes ", " = [","] ∧
    lexemes "." = ["."] ∧ lexemes "?" = ["?"] ∧ lexemes ":" = [":"] ∧ lexemes "+" = ["+"] ∧
    lexemes " " = [] := by
  decide

@[simp] theorem wordsOf_listed (items : List (List Piece)) :
    wordsOf stem (listed items) = [","].intercalate (items.map (wordsOf stem)) := by
  rw [listed, wordsOf_intercalate]
  simp [Piece.text, lexemes_signs]

/-- A word that is the same in all code. -/
theorem reads_fixed {text : String} (h : IsPlain text) :
    ReadsAs 10 (lexemes text) (.word text) := by
  rw [lexemes_word h.1]
  exact reads_word h

theorem Ty.isType_tree (type : Ty) : type.tree.isType = true := by
  induction type with
  | named path => exact isType_path _
  | array element rank ih => exact ih
  | _ => rfl

theorem Ty.reads (stem : String) (type : Ty) (hflat : type.Flat)
    (h : type.Spells Spelling.Unreserved) :
    ReadsAs 10 (wordsOf stem type.pieces) type.tree := by
  have hangle : ∀ {name : String} {element : Ty}, IsPlain name →
      ReadsAs 10 (wordsOf stem element.pieces) element.tree →
      ReadsAs 10 (wordsOf stem (.fixed name :: .fixed "<" :: element.pieces ++ [.fixed ">"]))
        (.apply .angle (.word name) [element.tree]) := by
    intro name element hplain helement
    have happly := (reads_word hplain).apply (b := .angle) (by decide) (.inr rfl) nofun
      (.cons (helement.mono (by decide)) .nil)
    simpa [Piece.text, lexemes_signs, lexemes_word hplain.1, Bracket.opening, Bracket.closing]
      using happly
  induction type with
  | named path =>
    have hplain : ∀ s ∈ (Spelling.path path).tokens.head?, IsPlain s := fun s hs =>
      have hs := List.mem_of_mem_head? hs
      (isWord_of_isIdentifier (h.1 s hs)).plain (h.2 s hs)
    have hpath := reads_path h.1 hplain
    simpa [pieces, Piece.text, Spelling.text, Ty.tree] using hpath
  | array element rank ih => cases hflat
  | listInterface element ih => exact hangle (by decide) (ih hflat h)
  | list element ih => exact hangle (by decide) (ih hflat h)
  | builtin type =>
    simp only [pieces, wordsOf_cons, wordsOf_nil, List.append_nil, Piece.text]
    cases type <;> exact reads_fixed (by decide)
  | string | intPtr =>
    simp only [pieces, wordsOf_cons, wordsOf_nil, List.append_nil, Piece.text]
    exact reads_fixed (by decide)

/-- A function that is told apart by no type is printed as a path that is the same in all code. -/
theorem Function.static {f : Function} (h : f.type? = none) :
    f.pieces = [.fixed f.text] ∧ f.tree = .path (Spelling.path f.text).tokens := by
  cases f with
  | ptrToStructure type | sizeOf type | releaseNative type => cases h
  | _ => exact ⟨rfl, rfl⟩

theorem Function.legible {f : Function} (h : f.type? = none) :
    ∀ s ∈ (Spelling.path f.text).tokens, isIdentifier s = true ∧ IsPlain s := by
  cases f with
  | ptrToStructure type | sizeOf type | releaseNative type => cases h
  | stringToHGlobal encoding | ptrToString encoding => cases encoding <;> decide +kernel
  | read word | write word => cases word <;> decide +kernel
  | _ => decide +kernel

/-- A function of `Marshal` for a type. -/
theorem reads_generic {text name : String} (hname : IsWord name)
    (hlexemes : lexemes text = ["Marshal", ".", name]) {type : Ty}
    (htype : ReadsAs 10 (wordsOf stem type.pieces) type.tree) :
    ReadsAs 10 (wordsOf stem (.fixed text :: .fixed "<" :: type.pieces ++ [.fixed ">"]))
      (.apply .angle (.path ["Marshal", name]) [type.tree]) := by
  have hclass : ReadsAs 10 ["Marshal", ".", name] (.path ["Marshal", name]) :=
    (reads_word (by decide)).member (by decide) hname
  have happly := hclass.apply (b := .angle) (by decide) (.inr rfl) nofun
    (.cons (htype.mono (by decide)) .nil)
  simpa [Piece.text, lexemes_signs, hlexemes, Bracket.opening, Bracket.closing] using happly

/-- The name of a function, as it stands before its arguments. -/
theorem Function.reads (stem : String) (f : Function) (hflat : ∀ type ∈ f.type?, type.Flat)
    (h : f.Spells Spelling.Unreserved) :
    ReadsAs 10 (wordsOf stem f.pieces) f.tree ∧ f.tree.isType = true := by
  cases hf : f.type? with
  | none =>
    obtain ⟨hpieces, htree⟩ := f.static hf
    rw [hpieces, htree, wordsOf_cons, wordsOf_nil, List.append_nil]
    refine ⟨reads_path (fun s hs => (legible hf s hs).1) fun s hs => ?_, isType_path _⟩
    exact (legible hf s (List.mem_of_mem_head? hs)).2
  | some type =>
    have htype : type.Spells Spelling.Unreserved →
        ReadsAs 10 (wordsOf stem type.pieces) type.tree :=
      type.reads stem (hflat type hf)
    cases f with
    | ptrToStructure type =>
      cases hf
      exact ⟨reads_generic (by decide) (by decide) (htype h), isType_path _⟩
    | sizeOf type =>
      cases hf
      exact ⟨reads_generic (by decide) (by decide) (htype h), isType_path _⟩
    | releaseNative type =>
      cases hf
      have hname : IsWord "ReleaseNative" := by decide
      have hmember := (htype h).member (by decide) hname
      refine ⟨?_, type.isType_tree⟩
      simpa [pieces, tree, Piece.text, lexemes_signs, lexemes_word hname] using hmember
    | _ => cases hf

/-- A literal with a fraction, which is a lexeme of its own. -/
theorem reads_fraction {whole fraction : String} (hwhole : IsPlain whole)
    (hfraction : ¬(IsWord fraction ∨ fraction = "("))
    (hsign : ∀ stack, Reader.sign stack (.word whole) fraction =
      some ⟨stack, some (.word (whole ++ fraction))⟩) :
    ReadsAs 10 [whole, fraction] (.word (whole ++ fraction)) := by
  refine .of_exact ⟨whole, rfl, .inl hwhole.1⟩ fun stack hstack => ?_
  rw [Reader.run_cons, Reader.step_start, Reader.start_word hwhole hstack,
    Option.bind_some, Reader.run_cons, Reader.step_sign (.inr hfraction), hsign]
  rfl

theorem Constant.reads (c : Constant) : ReadsAs 9 (lexemes c.text) c.tree := by
  have hmember : ∀ {owner name : String}, IsPlain owner → IsWord name →
      ReadsAs 9 [owner, ".", name] (.path [owner, name]) := fun howner hname =>
    ((reads_word howner).member (by decide) hname).mono (by decide)
  cases c with
  | zeroHandle | emptyString | sizeOfHandle =>
    exact hmember (by decide) (by decide)
  | sizeOfInt =>
    have hint := reads_word (by decide : IsPlain "int")
    have hsize := (reads_word (by decide : IsPlain "sizeof")).mono (by decide : 9 ≤ 10)
    exact hsize.apply (b := .round) (by decide) (.inl rfl) (fun _ => rfl)
      (.cons (hint.mono (by decide)) .nil)
  | zeroFloat =>
    have hzero : ReadsAs 10 ["0", ".0f"] (.word ("0" ++ ".0f")) :=
      reads_fraction (by decide) (by decide) fun _ => rfl
    exact hzero.mono (by decide)
  | zeroDouble =>
    have hzero : ReadsAs 10 ["0", ".0"] (.word ("0" ++ ".0")) :=
      reads_fraction (by decide) (by decide) fun _ => rfl
    exact hzero.mono (by decide)
  | _ => exact (reads_fixed (by decide)).mono (by decide)

theorem BinaryOp.lexemes_text (op : BinaryOp) : lexemes op.text = [op.operator.text] := by
  cases op <;> decide

/-- Numerals and local variables are words of their own. -/
theorem Piece.reads (hstem : isIdentifier stem = true) {p : Piece}
    (hp : (∃ n, p = .numeral n) ∨ ∃ name, p = .binding name) :
    ReadsAs 10 (lexemes (p.text stem)) (.word (p.text stem)) := by
  have hword : IsWord (p.text stem) := by
    rcases hp with ⟨n, rfl⟩ | ⟨name, rfl⟩
    · exact isWord_numeral n
    · exact isWord_of_isIdentifier (name.isIdentifier_name hstem)
  have hlexemes := lexemes_word hword
  have hkeyword : p.text stem ∉ keywords := fun hmem => by
    obtain ⟨hnumeral, hbinding⟩ :=
      p.not_keyword hstem (hlexemes ▸ List.mem_singleton.mpr rfl) hmem
    rcases hp with ⟨n, rfl⟩ | ⟨name, rfl⟩
    · exact hnumeral n rfl
    · exact hbinding name rfl
  rw [hlexemes]
  exact reads_word (hword.plain hkeyword)

/-- The dimensions of a new array. -/
theorem reads_dims (hstem : isIdentifier stem = true) (dims : List Nat) :
    List.Forall₂ (ReadsAs 1) ((dims.map fun d => [Piece.numeral d]).map (wordsOf stem))
      (dims.map fun d => .word (toString d)) := by
  induction dims with
  | nil => exact .nil
  | cons d rest ih =>
    refine .cons ?_ ih
    have hnumeral := (Piece.reads hstem (.inl ⟨d, rfl⟩)).mono (by decide : 1 ≤ 10)
    simpa [Piece.text] using hnumeral

theorem lexemes_brackets (n : Nat) :
    lexemes (brackets n) = (List.replicate n ["[", "]"]).flatten := by
  induction n with
  | zero => rfl
  | succ n ih =>
    have hnext : brackets (n + 1) = "[]" ++ brackets n := by
      simp [brackets, List.replicate_succ, String.join_cons]
    rw [hnext, lexemes_append (EndsLoose.apart (by decide) _), ih]
    rfl

/-- Brackets behind an array creation. -/
theorem reads_rows {ls : List String} {x : Tree} (h : ReadsAs 9 ls x) (n : Nat) :
    ReadsAs 9 (ls ++ (List.replicate n ["[", "]"]).flatten) (rowTree n x) := by
  induction n generalizing ls x with
  | zero => simpa [rowTree] using h
  | succ n ih =>
    have happly := ih (h.apply (b := .square) (by decide) (.inl rfl) nofun .nil)
    simpa [rowTree, List.replicate_succ, Bracket.opening, Bracket.closing] using happly

mutual

/-- Where its precedence allows it, a grouped expression is read as its tree. -/
theorem Expr.reads (hstem : isIdentifier stem = true) (e : Expr) (hgrouped : e.Grouped)
    (h : e.Spells Spelling.Unreserved) :
    ReadsAs e.precedence (wordsOf stem e.pieces) (e.tree stem) := by
  cases e with
  | var name =>
    have hname := (Piece.reads hstem (.inr ⟨name, rfl⟩)).mono (by decide : 9 ≤ 10)
    simpa [Expr.pieces, Expr.tree, Expr.precedence, Piece.text] using hname
  | field owner name =>
    have howner : IsPlain owner.text := by cases owner <;> decide
    have hname : IsWord (identifier name) := isWord_identifier h.1
    have hmember := (reads_fixed howner).member (by decide) hname
    refine ReadsAs.mono ?_ (by decide : 9 ≤ 10)
    simpa [Expr.pieces, Expr.tree, Piece.text, Spelling.text, lexemes_signs, lexemes_word hname]
      using hmember
  | spelled text => cases hgrouped
  | nat n =>
    have hnumeral := (Piece.reads hstem (.inl ⟨n, rfl⟩)).mono (by decide : 9 ≤ 10)
    simpa [Expr.pieces, Expr.tree, Expr.precedence, Piece.text] using hnumeral
  | constant c =>
    simpa [Expr.pieces, Expr.tree, Expr.precedence, Piece.text] using c.reads
  | paren inner =>
    have hinner := (inner.reads hstem hgrouped h).mono inner.precedence_pos
    simpa [Expr.pieces, Expr.tree, Expr.precedence, Piece.text, lexemes_signs] using hinner.group
  | index base indices =>
    obtain ⟨hbase, hp, hindices⟩ := hgrouped
    have happly := ((base.reads hstem hbase h.1).mono hp).apply (b := .square) (by decide) (.inl rfl)
      nofun (reads_all hstem indices hindices h.2)
    simpa [Expr.pieces, Expr.tree, Expr.precedence, Piece.text, lexemes_signs, Bracket.opening,
      Bracket.closing] using happly
  | binary op left right =>
    obtain ⟨hleft, hright, hl, hr⟩ := hgrouped
    have hbinary := ((left.reads hstem hleft h.1).mono hl).binary op.operator
      ((right.reads hstem hright h.2).mono hr)
    simpa [Expr.pieces, Expr.tree, Expr.precedence, Piece.text, lexemes_signs, op.lexemes_text]
      using hbinary
  | listCount e =>
    obtain ⟨he, hp⟩ := hgrouped
    have hmember := ((e.reads hstem he h).mono hp).member (by decide) (by decide : IsWord "Count")
    simpa [Expr.pieces, Expr.tree, Expr.precedence, Piece.text, lexemes_signs,
      lexemes_word (by decide : IsWord "Count")] using hmember
  | arrayLength e =>
    obtain ⟨he, hp⟩ := hgrouped
    have hmember := ((e.reads hstem he h).mono hp).member (by decide) (by decide : IsWord "Length")
    simpa [Expr.pieces, Expr.tree, Expr.precedence, Piece.text, lexemes_signs,
      lexemes_word (by decide : IsWord "Length")] using hmember
  | cast type e =>
    obtain ⟨htype, he, hp⟩ := hgrouped
    have hcast := (type.reads stem htype h.1).cast type.isType_tree ((e.reads hstem he h.2).mono hp)
    simpa [Expr.pieces, Expr.tree, Expr.precedence, Piece.text, lexemes_signs] using hcast
  | uncheckedCast type e =>
    obtain ⟨htype, he, hp⟩ := hgrouped
    have hcast := (type.reads stem htype h.1).cast type.isType_tree ((e.reads hstem he h.2).mono hp)
    have hunchecked := (reads_word (by decide : IsPlain "unchecked")).mono (by decide : 9 ≤ 10)
    have happly := hunchecked.apply (b := .round) (by decide) (.inl rfl) (fun _ => rfl)
      (.cons (hcast.mono (by decide)) .nil)
    simpa [Expr.pieces, Expr.tree, Expr.precedence, Piece.text, lexemes_signs, Bracket.opening,
      Bracket.closing, lexemes_word (by decide : IsWord "unchecked")] using happly
  | sum terms =>
    obtain ⟨hne, hterms, hp⟩ := hgrouped
    have hall := reads_terms hstem terms hterms h hp
    have hwords : wordsOf stem (Expr.sum terms).pieces =
        ["+"].intercalate ((piecesOf terms).map (wordsOf stem)) := by
      rw [Expr.pieces, wordsOf_intercalate]
      simp [Piece.text, lexemes_signs]
    rw [hwords, Expr.tree, Expr.precedence]
    cases terms with
    | nil => exact absurd rfl hne
    | cons first rest =>
      obtain ⟨hfirst, hrest⟩ := List.forall₂_cons.mp hall
      exact (hfirst.mono (by decide)).sum hrest
  | conditional c a b =>
    obtain ⟨hc, ha, hb, hpc, hpa, hpb⟩ := hgrouped
    have hconditional := ((c.reads hstem hc h.1).mono hpc).conditional
      ((a.reads hstem ha h.2.1).mono hpa) ((b.reads hstem hb h.2.2).mono hpb)
    simpa [Expr.pieces, Expr.tree, Expr.precedence, Piece.text, lexemes_signs] using hconditional
  | byRef place =>
    have hreference := ((place.reads hstem hgrouped h).mono place.precedence_pos).reference
    simpa [Expr.pieces, Expr.tree, Expr.precedence, Piece.text, lexemes_signs,
      lexemes_word (by decide : IsWord "ref")] using hreference
  | call f arguments =>
    obtain ⟨hf, harguments⟩ := hgrouped
    obtain ⟨hfunction, htype⟩ := f.reads stem hf h.1
    have happly := (hfunction.mono (by decide : 9 ≤ 10)).apply (b := .round) (by decide) (.inl rfl)
      (fun _ => Tree.castType?_of_isType htype) (reads_all hstem arguments harguments h.2)
    simpa [Expr.pieces, Expr.tree, Expr.precedence, Piece.text, lexemes_signs, Bracket.opening,
      Bracket.closing] using happly
  | invoke receiver method arguments =>
    obtain ⟨hreceiver, hp, harguments⟩ := hgrouped
    have hname := isWord_of_isIdentifier method.isIdentifier_text
    have hmember := ((receiver.reads hstem hreceiver h.1).mono hp).member (by decide) hname
    have happly := hmember.apply (b := .round) (by decide) (.inl rfl) (fun _ => rfl)
      (reads_all hstem arguments harguments h.2)
    simpa [Expr.pieces, Expr.tree, Expr.precedence, Piece.text, lexemes_signs, Bracket.opening,
      Bracket.closing, lexemes_word hname] using happly
  | defaultOf type =>
    have htype := type.reads stem hgrouped h
    have hdefault := (reads_word (by decide : IsPlain "default")).mono (by decide : 9 ≤ 10)
    have happly := hdefault.apply (b := .round) (by decide) (.inl rfl) (fun _ => rfl)
      (.cons (htype.mono (by decide)) .nil)
    simpa [Expr.pieces, Expr.tree, Expr.precedence, Piece.text, lexemes_signs, Bracket.opening,
      Bracket.closing, lexemes_word (by decide : IsWord "default")] using happly
  | newObject type arguments =>
    obtain ⟨htype, harguments⟩ := hgrouped
    have hnew := (type.reads stem htype h.1).creation (b := .round) (by decide)
      type.isType_tree (reads_all hstem arguments harguments h.2)
    simpa [Expr.pieces, Expr.tree, Expr.precedence, Piece.text, lexemes_signs, Bracket.opening,
      Bracket.closing, lexemes_word (by decide : IsWord "new")] using hnew
  | newArray element dims inner =>
    have hnew := ((element.reads stem hgrouped h).creation (b := .square) (by decide)
      element.isType_tree (reads_dims hstem dims))
    have hrows := reads_rows hnew inner
    simpa [Expr.pieces, Expr.tree, Expr.precedence, Piece.text, lexemes_signs, Bracket.opening,
      Bracket.closing, lexemes_word (by decide : IsWord "new"), lexemes_brackets] using hrows

theorem reads_all (hstem : isIdentifier stem = true) (es : List Expr) (hgrouped : AllGrouped es)
    (h : AllSpell Spelling.Unreserved es) :
    List.Forall₂ (ReadsAs 1) ((piecesOf es).map (wordsOf stem)) (trees stem es) := by
  cases es with
  | nil => exact .nil
  | cons e es =>
    exact .cons ((e.reads hstem hgrouped.1 h.1).mono e.precedence_pos)
      (reads_all hstem es hgrouped.2 h.2)

/-- The terms of a sum. -/
theorem reads_terms (hstem : isIdentifier stem = true) (es : List Expr) (hgrouped : AllGrouped es)
    (h : AllSpell Spelling.Unreserved es) (hp : ∀ e ∈ es, 7 ≤ e.precedence) :
    List.Forall₂ (ReadsAs 7) ((piecesOf es).map (wordsOf stem)) (trees stem es) := by
  cases es with
  | nil => exact .nil
  | cons e es =>
    obtain ⟨he, hes⟩ := List.forall_mem_cons.mp hp
    exact .cons ((e.reads hstem hgrouped.1 h.1).mono he)
      (reads_terms hstem es hgrouped.2 h.2 hes)

end

/-! ## Texts -/

theorem Expr.lexemes_text (e : Expr) (h : e.Spells Spelling.Unreserved) :
    lexemes (e.text stem) = wordsOf stem e.pieces := by
  rw [e.text_eq stem]
  exact e.cut (h.mono fun _ hs => hs.1)

/-- The text of a grouped expression is read as its tree. -/
theorem Expr.readTree?_text (hstem : isIdentifier stem = true) (e : Expr) (hgrouped : e.Grouped)
    (h : e.Spells Spelling.Unreserved) : readTree? (e.text stem) = some (e.tree stem) :=
  (e.reads hstem hgrouped h).readTree? e.precedence_pos (e.lexemes_text h)

/-- An assignment takes all of what is assigned. -/
theorem assignment_reads (hstem : isIdentifier stem = true) {place value : Expr}
    (hplace : place.Grouped ∧ 3 ≤ place.precedence) (hvalue : value.Grouped ∧ 3 ≤ value.precedence)
    (hspells : place.Spells Spelling.Unreserved ∧ value.Spells Spelling.Unreserved) :
    readTree? (place.text stem ++ " = " ++ value.text stem) =
      some (.binary .assign (place.tree stem) (value.tree stem)) := by
  have hassign : ReadsAs 2 (wordsOf stem place.pieces ++ "=" :: wordsOf stem value.pieces)
      (.binary .assign (place.tree stem) (value.tree stem)) :=
    ((place.reads hstem hplace.1 hspells.1).mono hplace.2).binary .assign
      ((value.reads hstem hvalue.1 hspells.2).mono (le_trans (by decide) hvalue.2))
  refine hassign.readTree? (by decide) ?_
  have hopens : BeginsLoose (" = " ++ value.text stem) := by
    intro c hc
    obtain rfl : ' ' = c := by simpa [String.toList_append] using hc
    exact .inl (by decide)
  have hsign : lexemes (" = " ++ value.text stem) = "=" :: wordsOf stem value.pieces := by
    rw [lexemes_append (EndsLoose.apart (by decide) _), value.lexemes_text hspells.2]
    rfl
  rw [String.append_assoc, lexemes_append (hopens.apart _), place.lexemes_text hspells.1, hsign]

end CSharp

end InteropGen

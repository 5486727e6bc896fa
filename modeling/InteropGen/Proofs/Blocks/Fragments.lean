import InteropGen.Proofs.Blocks.Scan
import InteropGen.Proofs.Names.Declared
import InteropGen.Proofs.Reading.Loops

/-!
# Fragments of printed code

What types, expressions and literals are printed as stands on one line, as long as the names that
they spell do, and a statement begins with a place or a call, never with a blank.

* `Sober` — the names that code may spell: they stand on one line and begin with neither a blank nor
  a brace;
* `Expr.oneLine_text` — no printed expression has a line end;
* `Expr.flush_text` — an expression that begins with a variable, a field or a call is not indented.
-/

set_option autoImplicit false

namespace InteropGen

open CSharp

/-! ## Texts on one line -/

@[simp] theorem oneLine_append {a b : String} : OneLine (a ++ b) ↔ OneLine a ∧ OneLine b := by
  simp [OneLine]

theorem oneLine_ofList {chars : List Char} : OneLine (String.ofList chars) ↔ '\n' ∉ chars := by
  simp [OneLine]

theorem oneLine_intercalate {separator : String} (hseparator : OneLine separator)
    {pieces : List String} (h : ∀ piece ∈ pieces, OneLine piece) :
    OneLine (separator.intercalate pieces) := by
  induction pieces with
  | nil => exact of_decide_eq_true rfl
  | cons first rest ih =>
    obtain ⟨hfirst, hrest⟩ := List.forall_mem_cons.mp h
    cases rest with
    | nil => simpa using hfirst
    | cons second more =>
      rw [String.intercalate_cons_cons]
      simp [hfirst, hseparator, ih hrest]

theorem oneLine_of_isWordChar {chars : List Char} (h : ∀ c ∈ chars, Reading.isWordChar c = true) :
    '\n' ∉ chars := fun hmem => absurd (h _ hmem) (by decide)

theorem oneLine_toString (n : Nat) : OneLine (toString n) := by
  rw [Nat.toString_eq_ofList_toDigits, oneLine_ofList]
  exact oneLine_of_isWordChar (Reading.isWordChar_digits n)

theorem Flush.append {a : String} (h : Flush a) (b : String) : Flush (a ++ b) := by
  obtain ⟨c, rest, ha, hc⟩ := h.exists_cons
  exact ⟨c, by simp [ha], hc⟩

theorem plainText_of_isIdentifier {text : String} (h : isIdentifier text = true) :
    PlainText text := by
  refine ⟨oneLine_of_isWordChar (Reading.isWordChar_of_isIdentifier h), ?_⟩
  unfold isIdentifier at h
  split at h
  · cases h
  · rename_i c rest htext
    have hfirst : (c.isAlpha || decide (c = '_')) = true := (Bool.and_eq_true _ _ ▸ h).1
    refine ⟨c, by simp [htext], ?_, ?_, ?_⟩ <;>
    · rintro rfl
      exact absurd hfirst (by decide)

/-- A plain text may be followed by anything that stands on one line. -/
theorem PlainText.append {before after : String} (hbefore : PlainText before)
    (hafter : OneLine after) : PlainText (before ++ after) :=
  ⟨oneLine_append.mpr ⟨hbefore.oneLine, hafter⟩, hbefore.flush.append _⟩

/-- A text that stands on one line and is not taken for indentation or for a brace. -/
def Spelling.Sober : Spelling → Prop
  | .path p => PlainText p
  | .name n => PlainText n

theorem PlainText.identifier {name : String} (h : PlainText name) :
    PlainText (identifier name) := by
  unfold CSharp.identifier
  split
  · refine ⟨by simpa using ⟨by decide, h.oneLine⟩, ?_⟩
    exact Flush.append (by decide) name
  · exact h

/-! ## Types -/

namespace CSharp

theorem Ty.oneLine_text {type : Ty} (h : type.Spells Spelling.Sober) : OneLine type.text := by
  induction type with
  | builtin b => cases b <;> decide
  | string => decide
  | intPtr => decide
  | named path => exact h.oneLine
  | array element rank ih =>
    simp only [Ty.text, oneLine_append]
    refine ⟨⟨⟨ih h, by decide⟩, oneLine_ofList.mpr fun hmem => ?_⟩, by decide⟩
    exact absurd (List.eq_of_mem_replicate hmem) (by decide)
  | listInterface element ih =>
    simp only [Ty.text, oneLine_append]
    exact ⟨⟨by decide, ih h⟩, by decide⟩
  | list element ih =>
    simp only [Ty.text, oneLine_append]
    exact ⟨⟨by decide, ih h⟩, by decide⟩

theorem Ty.flush_text {type : Ty} (h : type.Spells Spelling.Sober) : Flush type.text := by
  induction type with
  | builtin b => cases b <;> decide
  | string => decide
  | intPtr => decide
  | named path => exact h.flush
  | array element rank ih => exact (((ih h).append _).append _).append _
  | listInterface element ih =>
    exact Flush.append (Flush.append (by decide) _) _
  | list element ih => exact Flush.append (Flush.append (by decide) _) _

/-! ## Expressions -/

theorem Local.oneLine_name {stem : String} (h : isIdentifier stem = true) (x : Local) :
    OneLine (x.name stem) := by
  cases x with
  | counter depth => exact oneLine_of_isWordChar (Reading.isWordChar_counterWord h depth)
  | _ => simp [OneLine, Local.name]

theorem Local.flush_name {stem : String} (h : isIdentifier stem = true) (x : Local) :
    Flush (x.name stem) := by
  cases x with
  | counter depth => exact (plainText_of_isIdentifier h).flush.append _
  | _ => simp [Flush, Local.name]

theorem Encoding.oneLine_text (e : Encoding) : OneLine e.owner ∧ OneLine e.text := by
  cases e <;> decide

theorem Word.oneLine_text (w : Word) : OneLine w.text := by
  cases w <;> decide

theorem Function.oneLine_text {f : Function} (h : f.Spells Spelling.Sober) : OneLine f.text := by
  cases f with
  | stringToHGlobal encoding =>
    obtain ⟨howner, htext⟩ := encoding.oneLine_text
    exact oneLine_append.mpr ⟨oneLine_append.mpr ⟨howner, by decide⟩, htext⟩
  | ptrToString encoding =>
    obtain ⟨howner, htext⟩ := encoding.oneLine_text
    exact oneLine_append.mpr ⟨oneLine_append.mpr ⟨howner, by decide⟩, htext⟩
  | write word => exact oneLine_append.mpr ⟨by decide, word.oneLine_text⟩
  | read word => exact oneLine_append.mpr ⟨by decide, word.oneLine_text⟩
  | ptrToStructure type =>
    exact oneLine_append.mpr ⟨oneLine_append.mpr ⟨by decide, Ty.oneLine_text h⟩, by decide⟩
  | sizeOf type =>
    exact oneLine_append.mpr ⟨oneLine_append.mpr ⟨by decide, Ty.oneLine_text h⟩, by decide⟩
  | releaseNative type => exact oneLine_append.mpr ⟨Ty.oneLine_text h, by decide⟩
  | _ => decide

theorem Method.oneLine_text (m : Method) : OneLine m.text := by
  have hform : ∀ form : WireForm, OneLine form.text := fun form => by cases form <;> decide
  have htag : ∀ tag : WireTag, OneLine tag.text := fun tag => by cases tag <;> decide
  cases m with
  | write tag form => simpa [Method.text] using ⟨⟨by decide, htag tag⟩, hform form⟩
  | read tag form => simpa [Method.text] using ⟨⟨by decide, htag tag⟩, hform form⟩
  | _ => decide

theorem oneLine_brackets (n : Nat) : OneLine (brackets n) := by
  unfold brackets
  induction n with
  | zero => decide
  | succ n ih =>
    rw [List.replicate_succ, String.join_cons, oneLine_append]
    exact ⟨by decide, ih⟩

/-- Expressions in a list, separated by commas. -/
theorem oneLine_arguments {pieces : List String} (h : ∀ piece ∈ pieces, OneLine piece) :
    OneLine (", ".intercalate pieces) :=
  oneLine_intercalate (by decide) h

mutual

/-- No printed expression has a line end. -/
theorem Expr.oneLine_text {stem : String} (h : isIdentifier stem = true) :
    ∀ e : Expr, e.Spells Spelling.Sober → OneLine (e.text stem)
  | .var x, _ => by simpa [Expr.text] using x.oneLine_name h
  | .field owner name, hname => by
    have hidentifier := PlainText.oneLine (PlainText.identifier hname)
    cases owner <;> simpa [OneLine, Expr.text, Owner.text] using hidentifier
  | .spelled _, hfalse => hfalse.elim
  | .nat n, _ => oneLine_toString n
  | .constant c, _ => by cases c <;> simp [OneLine, Expr.text, Constant.text]
  | .paren e, he => by
    have hinner := e.oneLine_text h he
    simpa [OneLine, Expr.text] using hinner
  | .index base indices, ⟨hbase, hindices⟩ => by
    have hbase := base.oneLine_text h hbase
    have hindices := oneLine_arguments (oneLine_texts h indices hindices)
    simp only [Expr.text, oneLine_append]
    exact ⟨⟨⟨hbase, by decide⟩, hindices⟩, by decide⟩
  | .listCount e, he => by
    have hlist := e.oneLine_text h he
    simpa [OneLine, Expr.text] using hlist
  | .arrayLength e, he => by
    have harray := e.oneLine_text h he
    simpa [OneLine, Expr.text] using harray
  | .cast type e, ⟨htype, he⟩ => by
    have htype := Ty.oneLine_text htype
    have hoperand := e.oneLine_text h he
    simpa [OneLine, Expr.text] using ⟨htype, hoperand⟩
  | .uncheckedCast type e, ⟨htype, he⟩ => by
    have htype := Ty.oneLine_text htype
    have hoperand := e.oneLine_text h he
    simpa [OneLine, Expr.text] using ⟨htype, hoperand⟩
  | .binary op left right, ⟨hleft, hright⟩ => by
    have hleft := left.oneLine_text h hleft
    have hright := right.oneLine_text h hright
    cases op <;> simpa [OneLine, Expr.text, BinaryOp.text] using ⟨hleft, hright⟩
  | .sum terms, hterms => oneLine_intercalate (by decide) (oneLine_texts h terms hterms)
  | .conditional condition whenTrue whenFalse, ⟨hcondition, htrue, hfalse⟩ => by
    have hcondition := condition.oneLine_text h hcondition
    have htrue := whenTrue.oneLine_text h htrue
    have hfalse := whenFalse.oneLine_text h hfalse
    simpa [OneLine, Expr.text] using ⟨hcondition, htrue, hfalse⟩
  | .byRef e, he => by
    have hplace := e.oneLine_text h he
    simpa [OneLine, Expr.text] using hplace
  | .call f arguments, ⟨hf, harguments⟩ => by
    have hf := Function.oneLine_text hf
    have harguments := oneLine_arguments (oneLine_texts h arguments harguments)
    simp only [Expr.text, oneLine_append]
    exact ⟨⟨⟨hf, by decide⟩, harguments⟩, by decide⟩
  | .invoke receiver method arguments, ⟨hreceiver, harguments⟩ => by
    have hreceiver := receiver.oneLine_text h hreceiver
    have hmethod := method.oneLine_text
    have harguments := oneLine_arguments (oneLine_texts h arguments harguments)
    simp only [Expr.text, oneLine_append]
    exact ⟨⟨⟨⟨⟨hreceiver, by decide⟩, hmethod⟩, by decide⟩, harguments⟩, by decide⟩
  | .defaultOf type, htype => by
    have htype := Ty.oneLine_text htype
    simpa [OneLine, Expr.text] using htype
  | .newObject type arguments, ⟨htype, harguments⟩ => by
    have htype := Ty.oneLine_text htype
    have harguments := oneLine_arguments (oneLine_texts h arguments harguments)
    simp only [Expr.text, oneLine_append]
    exact ⟨⟨⟨⟨by decide, htype⟩, by decide⟩, harguments⟩, by decide⟩
  | .newArray element dims inner, helement => by
    have helement := Ty.oneLine_text helement
    have hdims : OneLine (", ".intercalate (dims.map toString)) :=
      oneLine_arguments (List.forall_mem_map.mpr fun d _ => oneLine_toString d)
    have hbrackets := oneLine_brackets inner
    simp only [Expr.text, oneLine_append]
    exact ⟨⟨⟨⟨⟨by decide, helement⟩, by decide⟩, hdims⟩, by decide⟩, hbrackets⟩

theorem oneLine_texts {stem : String} (h : isIdentifier stem = true) :
    ∀ es : List Expr, AllSpell Spelling.Sober es → ∀ text ∈ texts stem es, OneLine text
  | [], _ => by simp [texts]
  | e :: rest, ⟨he, hrest⟩ => by
    rw [texts]
    exact List.forall_mem_cons.mpr ⟨e.oneLine_text h he, oneLine_texts h rest hrest⟩

end

theorem Function.flush_text {f : Function} (h : f.Spells Spelling.Sober) : Flush f.text := by
  cases f with
  | stringToHGlobal encoding =>
    exact Flush.append (Flush.append (by cases encoding <;> decide) _) _
  | ptrToString encoding => exact Flush.append (Flush.append (by cases encoding <;> decide) _) _
  | releaseNative type => exact (Ty.flush_text h).append _
  | ptrToStructure type => exact Flush.append (Flush.append (by decide) _) _
  | sizeOf type => exact Flush.append (Flush.append (by decide) _) _
  | write word => exact Flush.append (by decide) _
  | read word => exact Flush.append (by decide) _
  | _ => decide

/-- The expression begins with a variable, a field or the name of a function. -/
@[simp] def Expr.Anchored : Expr → Prop
  | .var _ | .field _ _ | .call _ _ => True
  | .index base _ => base.Anchored
  | .invoke receiver _ _ => receiver.Anchored
  | _ => False

/-- Such an expression is not taken for indentation or for a brace. -/
theorem Expr.flush_text {stem : String} (h : isIdentifier stem = true) :
    ∀ e : Expr, e.Spells Spelling.Sober → e.Anchored → Flush (e.text stem)
  | .var x, _, _ => x.flush_name h
  | .field owner name, _, _ => by
    cases owner <;> exact Flush.append (Flush.append (by decide) _) _
  | .call f arguments, ⟨hf, _⟩, _ => (((Function.flush_text hf).append _).append _).append _
  | .index base indices, ⟨hbase, _⟩, hanchored =>
    (((base.flush_text h hbase hanchored).append _).append _).append _
  | .invoke receiver method arguments, ⟨hreceiver, _⟩, hanchored =>
    (((((receiver.flush_text h hreceiver hanchored).append _).append _).append _).append _).append _

/-! ## Statements -/

mutual

/-- Every place that is assigned and every call begins with a variable, a field or a function. -/
@[simp] def Stmt.Anchored : Stmt → Prop
  | .assign place _ => place.Anchored
  | .run call => call.Anchored
  | .declare _ _ _ => True
  | .block body | .countUp _ _ body | .when _ body | .forEach _ _ _ body => BodyAnchored body

@[simp] def BodyAnchored : List Stmt → Prop
  | [] => True
  | s :: rest => s.Anchored ∧ BodyAnchored rest

end

theorem bodyAnchored_append (a b : List Stmt) :
    BodyAnchored (a ++ b) ↔ BodyAnchored a ∧ BodyAnchored b := by
  induction a with
  | nil => simp
  | cons s rest ih => simp [ih, and_assoc]

theorem bodyAnchored_flatMap {α : Type} (items : List α) (body : α → List Stmt)
    (h : ∀ item ∈ items, BodyAnchored (body item)) : BodyAnchored (items.flatMap body) := by
  induction items with
  | nil => trivial
  | cons item rest ih =>
    obtain ⟨hitem, hrest⟩ := List.forall_mem_cons.mp h
    rw [List.flatMap_cons, bodyAnchored_append]
    exact ⟨hitem, ih hrest⟩

theorem Expr.plainText {stem : String} (h : isIdentifier stem = true) {e : Expr}
    (he : e.Spells Spelling.Sober) (hanchored : e.Anchored) : PlainText (e.text stem) :=
  ⟨e.oneLine_text h he, e.flush_text h he hanchored⟩

theorem plainText_countUpHeader {stem : String} (h : isIdentifier stem = true) (depth : Nat)
    {bound : Expr} (hbound : bound.Spells Spelling.Sober) :
    PlainText (countUpHeader stem depth bound) := by
  have hcounter := (Local.counter depth).oneLine_name h
  have hbound := bound.oneLine_text h hbound
  have hstart : PlainText "for (int " := ⟨by decide, by decide⟩
  exact ((((((((hstart.append hcounter).append (by decide)).append hcounter).append
    (by decide)).append hbound).append (by decide)).append hcounter).append (by decide))

mutual

/-- The blocks of a printed statement are closed. -/
theorem Stmt.nested_lines {stem : String} (h : isIdentifier stem = true) (level : Nat) :
    ∀ s : Stmt, s.Spells Spelling.Sober → s.Anchored → Nested level (s.lines stem level)
  | .assign place value, ⟨hplace, hvalue⟩, hanchored => by
    have htext := Expr.plainText h hplace hanchored
    have hright := value.oneLine_text h hvalue
    exact .single (((htext.append (by decide)).append hright).append (by decide))
  | .declare type name value, ⟨htype, hvalue⟩, _ => by
    have htext : PlainText type.text := ⟨Ty.oneLine_text htype, Ty.flush_text htype⟩
    have hname := name.oneLine_name h
    have hright := value.oneLine_text h hvalue
    exact .single (((((htext.append (by decide)).append hname).append
      (by decide)).append hright).append (by decide))
  | .run call, hcall, hanchored =>
    .single ((Expr.plainText h hcall hanchored).append (by decide))
  | .block body, hbody, hanchored => (nested_bodyLines h (level + 1) body hbody hanchored).braced
  | .countUp depth bound body, ⟨hbound, hbody⟩, hanchored =>
    .headed (plainText_countUpHeader h depth hbound)
      (nested_bodyLines h (level + 1) body hbody hanchored)
  | .when condition body, ⟨hcondition, hbody⟩, hanchored => by
    have hstart : PlainText "if (" := ⟨by decide, by decide⟩
    exact .headed ((hstart.append (condition.oneLine_text h hcondition)).append (by decide))
      (nested_bodyLines h (level + 1) body hbody hanchored)
  | .forEach type name list body, ⟨htype, hlist, hbody⟩, hanchored => by
    have hstart : PlainText "foreach (" := ⟨by decide, by decide⟩
    exact .headed ((((((hstart.append (Ty.oneLine_text htype)).append (by decide)).append
        (name.oneLine_name h)).append (by decide)).append
        (list.oneLine_text h hlist)).append (by decide))
      (nested_bodyLines h (level + 1) body hbody hanchored)

theorem nested_bodyLines {stem : String} (h : isIdentifier stem = true) (level : Nat) :
    ∀ stmts : List Stmt, BodySpells Spelling.Sober stmts → BodyAnchored stmts →
      Nested level (bodyLines stem level stmts)
  | [], _, _ => .nil level
  | s :: rest, ⟨hs, hrest⟩, ⟨hanchored, hmore⟩ =>
    (s.nested_lines h level hs hanchored).append (nested_bodyLines h level rest hrest hmore)

end

end CSharp

end InteropGen

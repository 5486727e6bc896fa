import InteropGen.Proofs.Writing.Tidy

/-!
# Writing statement by statement

A conversion puts all its lines on the page at once. The same page comes about if its statements are
written one after the other, each block opened before and closed after what is inside it, and each
loop taking the next free counter and giving it back: the loops of a conversion are numbered by how
deep they are nested.

* `writeBodyOn_eq` — written step by step, numbered statements leave the scribe at its place, by
  induction on the statements;
* `loopNest_numbered` — the numbers of a loop nest;
* `Target.draftOf_numbered` — whatever a conversion writes is numbered, also if it is cut short.
-/

set_option autoImplicit false

namespace InteropGen

namespace CSharp

/-! ## Steps -/

mutual

/-- Writes a statement step by step. A loop is named by the counter that is free, whatever its
number in the statement. -/
def Stmt.writeOn : Stmt → Page → Page
  | .assign place value, p =>
    let stem := p.scribe.style.counterStem
    p.line (place.text stem ++ " = " ++ value.text stem ++ ";")
  | .declare type name value, p =>
    let stem := p.scribe.style.counterStem
    p.line (type.text ++ " " ++ name.name stem ++ " = " ++ value.text stem ++ ";")
  | .run call, p => p.line (call.text p.scribe.style.counterStem ++ ";")
  | .block body, p => (writeBodyOn body p.openBlock).close
  | .countUp _ bound body, p => (writeBodyOn body (p.enterLoop bound)).leaveLoop
  | .when condition body, p =>
    (writeBodyOn body
      (p.openWith ("if (" ++ condition.text p.scribe.style.counterStem ++ ")"))).close
  | .forEach type name list body, p =>
    let stem := p.scribe.style.counterStem
    (writeBodyOn body
      (p.openWith ("foreach (" ++ type.text ++ " " ++ name.name stem ++ " in " ++ list.text stem ++
        ")"))).close

/-- Writes statements one after the other. -/
def writeBodyOn : List Stmt → Page → Page
  | [], p => p
  | s :: rest, p => writeBodyOn rest (s.writeOn p)

end

mutual

/-- The loops of a statement are numbered by how many loops are around them, `depth` of which are
around the statement. -/
@[simp] def Stmt.Numbered (depth : Nat) : Stmt → Prop
  | .assign _ _ | .declare _ _ _ | .run _ => True
  | .block body | .when _ body | .forEach _ _ _ body => BodyNumbered depth body
  | .countUp k _ body => k = depth ∧ BodyNumbered (depth + 1) body

@[simp] def BodyNumbered (depth : Nat) : List Stmt → Prop
  | [] => True
  | s :: rest => s.Numbered depth ∧ BodyNumbered depth rest

end

theorem bodyNumbered_append (depth : Nat) (a b : List Stmt) :
    BodyNumbered depth (a ++ b) ↔ BodyNumbered depth a ∧ BodyNumbered depth b := by
  induction a with
  | nil => simp
  | cons s rest ih => simp [ih, and_assoc]

end CSharp

open CSharp

namespace Page

/-- A block that is opened, written and closed. -/
theorem statements_braced (p : Page) (header : String) (body : List Stmt) :
    ((p.openWith header).statements body).close =
      { p with
        lines := p.lines ++ ⟨p.scribe.level, header⟩ ::
          braced p.scribe.level
            (bodyLines p.scribe.style.counterStem (p.scribe.level + 1) body) } := by
  simp [openWith, openBlock, statements, close, closeWith, line, update, braced]

end Page

mutual

/-- Written step by step, a numbered statement gives the page that it gives at once. -/
theorem CSharp.Stmt.writeOn_eq : ∀ (s : Stmt) (p : Page), s.Numbered p.scribe.loopDepth →
    s.writeOn p = p.statements [s]
  | .assign _ _, _, _ | .declare _ _ _, _, _ | .run _, _, _ => rfl
  | .block body, p, h => by
    rw [Stmt.writeOn, CSharp.writeBodyOn_eq body p.openBlock h]
    simp [Page.openBlock, Page.statements, Page.close, Page.closeWith, Page.line, Page.update,
      braced, bodyLines, Stmt.lines]
  | .when condition body, p, h => by
    rw [Stmt.writeOn, CSharp.writeBodyOn_eq body (p.openWith _) h, Page.statements_braced]
    simp [Page.statements, bodyLines, Stmt.lines]
  | .forEach type name list body, p, h => by
    rw [Stmt.writeOn, CSharp.writeBodyOn_eq body (p.openWith _) h, Page.statements_braced]
    simp [Page.statements, bodyLines, Stmt.lines]
  | .countUp depth bound body, p, h => by
    obtain ⟨rfl, hbody⟩ := h
    rw [Stmt.writeOn, CSharp.writeBodyOn_eq body (p.enterLoop bound) hbody, Page.enterLoop,
      Page.leaveLoop, Page.statements_braced]
    simp [Page.statements, Page.pushCounter, Page.popCounter, Page.update, bodyLines, Stmt.lines]

theorem CSharp.writeBodyOn_eq : ∀ (body : List Stmt) (p : Page),
    BodyNumbered p.scribe.loopDepth body → writeBodyOn body p = p.statements body
  | [], p, _ => by simp [writeBodyOn, Page.statements, bodyLines]
  | s :: rest, p, h => by
    rw [writeBodyOn, CSharp.Stmt.writeOn_eq s p h.1,
      CSharp.writeBodyOn_eq rest (p.statements [s]) h.2]
    simp [Page.statements, bodyLines]

end

/-! ## Numbers -/

section
variable (depth : Nat)

theorem bodyNumbered_atLevel (rows : Option RowAllocation) (indices : List Expr) :
    BodyNumbered depth (RowAllocation.atLevel rows indices) := by
  cases rows with
  | none => trivial
  | some r =>
    simp only [RowAllocation.atLevel]
    split <;> simp [RowAllocation.row]

/-- The loops of a nest take the numbers from `depth` on, by induction on the dimensions. -/
theorem loopNest_numbered (dims : List Nat) (rows : Option RowAllocation)
    (body : List Expr → List Stmt)
    (hbody : ∀ indices depth, BodyNumbered depth (body indices)) :
    BodyNumbered depth (loopNest depth dims rows body) := by
  have hnest : ∀ depth outer, BodyNumbered depth (loopNestFrom rows body depth outer dims) := by
    induction dims with
    | nil => exact fun depth outer => hbody outer depth
    | cons d rest ih =>
      exact fun depth outer => ⟨⟨rfl, (bodyNumbered_append _ _ _).mpr
        ⟨bodyNumbered_atLevel _ rows _, ih (depth + 1) _⟩⟩, trivial⟩
  exact hnest depth []

theorem allRows_numbered (rows : Option RowAllocation) :
    BodyNumbered depth (rows.elim [] (allRows depth)) := by
  cases rows with
  | none => trivial
  | some r =>
    rw [Option.elim_some]
    unfold allRows
    split
    · trivial
    · exact loopNest_numbered depth _ _ _ fun _ _ => trivial

namespace Target

variable (t : Target) (e : Element)

theorem elementToNative_numbered (value place : Expr) :
    BodyNumbered depth (t.elementToNative e value place) := by
  cases e <;> simp [elementToNative, storeString, convertStruct]

theorem elementFromNative_numbered (place native : Expr) :
    BodyNumbered depth (t.elementFromNative e place native) := by
  cases e <;> simp [elementFromNative, readStruct]

theorem storeInSlot_numbered (buffer offset value : Expr) :
    BodyNumbered depth (t.storeInSlot e buffer offset value) := by
  cases e <;> simp [storeInSlot, stageToNative, convertStruct]

theorem loadFromSlot_numbered (buffer offset : Expr) (use : Expr → Stmt)
    (huse : ∀ x, (use x).Numbered depth) :
    BodyNumbered depth (t.loadFromSlot e buffer offset use) := by
  cases e <;> simp [loadFromSlot, stageFromNative, huse]

variable (f : FieldView) (dims : List Nat)

theorem inlineArrayToNative_numbered (length : Nat) :
    BodyNumbered depth (t.inlineArrayToNative depth f e dims length) := by
  unfold inlineArrayToNative
  split
  · simp
  · exact ⟨trivial, loopNest_numbered depth dims _ _ fun _ depth =>
      t.elementToNative_numbered depth e _ _⟩

theorem outOfLineArrayToNative_numbered (length : Nat) :
    BodyNumbered depth (t.outOfLineArrayToNative depth f e dims length) := by
  have hslots := loopNest_numbered depth dims none (fun indices =>
      t.storeInSlot e f.native (slotOffset dims indices) (t.layout.elementAt f.value indices))
    fun _ depth => t.storeInSlot_numbered depth e _ _ _
  simp [outOfLineArrayToNative, allocate, hslots]

theorem sequenceToNative_numbered (maxBound : Nat) :
    BodyNumbered depth (t.sequenceToNative depth f e maxBound) := by
  simp [sequenceToNative, allocate, countedLoop, t.storeInSlot_numbered]

theorem inlineArrayFromNative_numbered (length : Nat) :
    BodyNumbered depth (t.inlineArrayFromNative depth f e dims length) := by
  unfold inlineArrayFromNative
  split
  · simp
  · exact loopNest_numbered depth dims _ _ fun _ depth =>
      t.elementFromNative_numbered depth e _ _

theorem outOfLineArrayFromNative_numbered :
    BodyNumbered depth (t.outOfLineArrayFromNative depth f e dims) := by
  have hslots := loopNest_numbered depth dims none (fun indices =>
      t.loadFromSlot e f.native (slotOffset dims indices) fun staged =>
        .assign (t.layout.elementAt f.value indices) staged)
    fun _ depth => t.loadFromSlot_numbered depth e _ _ _ fun _ => trivial
  refine (bodyNumbered_append _ _ _).mpr ⟨allRows_numbered depth _, ?_⟩
  simp [hslots]

theorem sequenceFromNative_numbered (maxBound : Nat) (fresh : Expr) :
    BodyNumbered depth (t.sequenceFromNative depth f e maxBound fresh) := by
  have hslots := t.loadFromSlot_numbered (depth + 1) e f.native (sequenceOffset (counter depth))
    (fun staged => .run (.invoke f.value .add [staged])) fun _ => trivial
  simp [sequenceFromNative, countedLoop, hslots]

theorem fillArray_numbered : BodyNumbered depth (t.fillArray depth f e dims) := by
  unfold fillArray
  split
  · exact loopNest_numbered depth dims _ _ fun _ _ => ⟨trivial, trivial⟩
  · exact allRows_numbered depth _

end Target

theorem releaseArray_numbered (native : Expr) (e : Element) (transfer : ArrayTransfer) :
    BodyNumbered depth (releaseArray depth native e transfer) := by
  cases transfer with
  | outOfLine length => simp [releaseArray, resetHandle]
  | inline length =>
    cases e with
    | string kind => simp [releaseArray, whenPresent]
    | struct s =>
      have hnest := loopNest_numbered depth [length] none
        (fun indices => [releaseStruct s (.index native indices)]) fun _ _ => ⟨trivial, trivial⟩
      simp [releaseArray, whenPresent, hnest]
    | _ => trivial

namespace Draft

/-- What a draft has written so far is numbered. -/
def Numbered {α : Type} (d : Draft α) : Prop :=
  BodyNumbered depth d.stmts

variable {depth}

theorem numbered_lift {α : Type} (result : Except GenError α) : (lift result).Numbered depth :=
  trivial

theorem Numbered.bind {α β : Type} {d : Draft α} {next : α → Draft β} (h : d.Numbered depth)
    (hnext : ∀ a, (next a).Numbered depth) : (d >>= next).Numbered depth := by
  show BodyNumbered depth (d.bind next).stmts
  unfold Draft.bind
  split
  · exact h
  · exact (bodyNumbered_append _ _ _).mpr ⟨h, hnext _⟩

theorem numbered_notePrecision (site : Site) (kind : PrimitiveKind) :
    (notePrecision site kind).Numbered depth := by
  rw [Numbered, notePrecision_stmts]
  trivial

theorem numbered_noteElementPrecision (site : Site) (e : Element) :
    (noteElementPrecision site e).Numbered depth := by
  rw [Numbered, noteElementPrecision_stmts]
  trivial

end Draft

open Draft

namespace Target

variable (t : Target) (f : FieldView)

theorem toNative_numbered : (t.toNative depth f).Numbered depth := by
  unfold toNative
  split
  · exact (numbered_notePrecision ..).bind fun _ => ⟨trivial, trivial⟩
  · exact ⟨trivial, trivial, trivial⟩
  · exact ⟨trivial, trivial⟩
  · exact ⟨trivial, trivial⟩
  · trivial
  · refine (numbered_lift _).bind fun e => (numbered_noteElementPrecision ..).bind fun _ =>
      (numbered_lift _).bind fun transfer => ?_
    cases transfer with
    | inline length => exact t.inlineArrayToNative_numbered depth e f _ length
    | outOfLine length => exact t.outOfLineArrayToNative_numbered depth e f _ length
  · exact (numbered_lift _).bind fun e => (numbered_noteElementPrecision ..).bind fun _ =>
      t.sequenceToNative_numbered depth e f _

theorem fromNative_numbered : (t.fromNative depth f).Numbered depth := by
  unfold fromNative
  split
  · exact (numbered_notePrecision ..).bind fun _ => ⟨trivial, trivial⟩
  · exact ⟨trivial, trivial⟩
  · exact ⟨trivial, trivial⟩
  · exact ⟨trivial, trivial, trivial⟩
  · trivial
  · refine (numbered_lift _).bind fun e => (numbered_noteElementPrecision ..).bind fun _ =>
      Numbered.bind (d := Draft.write _) ⟨trivial, trivial⟩ fun _ =>
        (numbered_lift _).bind fun transfer => ?_
    cases transfer with
    | inline length => exact t.inlineArrayFromNative_numbered depth e f _ length
    | outOfLine length => exact t.outOfLineArrayFromNative_numbered depth e f _
  · exact (numbered_lift _).bind fun fresh => (numbered_lift _).bind fun e =>
      (numbered_noteElementPrecision ..).bind fun _ =>
        t.sequenceFromNative_numbered depth e f _ fresh

theorem initial_numbered : (t.initial depth f).Numbered depth := by
  unfold initial
  refine (numbered_lift _).bind fun value =>
    Numbered.bind (d := Draft.write _) ⟨trivial, trivial⟩ fun _ => ?_
  split
  · split
    · exact (numbered_lift _).bind fun e => t.fillArray_numbered depth e f _
    · trivial
  · trivial

theorem releaseNative_numbered : (InteropGen.releaseNative depth f).Numbered depth := by
  unfold InteropGen.releaseNative
  split
  · trivial
  · trivial
  · exact ⟨trivial, trivial⟩
  · exact ⟨trivial, trivial⟩
  · exact ⟨trivial, trivial⟩
  · trivial
  · exact (numbered_lift _).bind fun e => (numbered_lift _).bind fun transfer =>
      releaseArray_numbered depth f.native e transfer

theorem encode_numbered : (t.encode depth f).Numbered depth := by
  unfold encode
  split
  · exact ⟨trivial, trivial⟩
  · exact ⟨trivial, trivial⟩
  · exact ⟨trivial, trivial⟩
  · trivial
  · trivial
  · exact (numbered_lift _).bind fun _ => ⟨trivial, trivial⟩
  · refine (numbered_lift _).bind fun _ => (numbered_lift _).bind fun length => ?_
    unfold encodeArray
    split
    · exact loopNest_numbered depth _ _ _ fun _ _ => ⟨trivial, trivial⟩
    · exact ⟨trivial, trivial⟩

theorem decode_numbered : (t.decode depth f).Numbered depth := by
  unfold decode
  split
  · exact ⟨trivial, trivial⟩
  · exact ⟨trivial, trivial⟩
  · exact ⟨trivial, trivial⟩
  · trivial
  · trivial
  · exact (numbered_lift _).bind fun _ => ⟨trivial, trivial⟩
  · refine (numbered_lift _).bind fun _ => (numbered_lift _).bind fun length => ?_
    unfold decodeArray
    split
    · exact ⟨trivial, loopNest_numbered depth _ _ _ fun _ _ => ⟨trivial, trivial⟩⟩
    · exact ⟨trivial, trivial⟩

/-- Whatever a conversion writes is numbered from the depth that it is given, also if it is cut
short. -/
theorem draftOf_numbered (direction : Direction) :
    (t.draftOf direction depth f).Numbered depth := by
  cases direction with
  | toTransfer => exact t.toNative_numbered depth f
  | fromTransfer => exact t.fromNative_numbered depth f
  | release => exact releaseNative_numbered depth f
  | encode => exact t.encode_numbered depth f
  | decode => exact t.decode_numbered depth f
  | initial => exact t.initial_numbered depth f

end Target

end

/-- What a mapper writes for a field where a scribe stands. -/
def Target.draftAt (mapper : Target) (direction : Direction) (f : Field) (s : Scribe) :
    Draft Unit :=
  let view := FieldView.of s.declaration f
  (mapper.within s.target.layout direction view.shape).draftOf direction s.loopDepth view

/-- A conversion writes its statements step by step. -/
theorem Page.convert_eq_stepwise (mapper : Target) (direction : Direction) (f : Field) (p : Page) :
    let d := mapper.draftAt direction f p.scribe
    convert mapper direction f p =
      ((writeBodyOn d.stmts (p.update fun s => { s with direction })).warn d.notes, d.outcome) := by
  intro d
  have hnumbered : d.Numbered p.scribe.loopDepth := Target.draftOf_numbered ..
  have hpage := writeBodyOn_eq d.stmts (p.update fun s => { s with direction }) hnumbered
  rw [hpage]
  rfl

end InteropGen

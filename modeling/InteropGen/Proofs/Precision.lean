import Mathlib.Data.List.Basic
import InteropGen.Proofs.Acceptance
import InteropGen.Proofs.Bodies

/-!
# Lost precision

The diagnostics of an accepted struct: one for each field whose value, or whose elements, are more
precise than the native side, from either conversion. Nothing else raises any, so that neither the
layout nor the platform has a part in them.

* `methodBody_notes` — the diagnostics of a method are those of its fields, in order;
* `Target.toNative_notes`, `Target.fromNative_notes` — one field in the conversions;
* `Target.declarationCode_notes` — a declaration.
-/

set_option autoImplicit false

namespace InteropGen

open CSharp

namespace Draft

variable {α β : Type}

theorem notes_bind_of_ok (d : Draft α) (next : α → Draft β) (a : α) (h : d.outcome = .ok a) :
    (d >>= next).notes = d.notes ++ (next a).notes := by
  show (d.bind next).notes = _
  unfold Draft.bind
  rw [h]

/-- Drafts that raise nothing raise nothing together. -/
theorem notes_bind_eq_nil (d : Draft α) (next : α → Draft β) (hd : d.notes = [])
    (hnext : ∀ a, (next a).notes = []) : (d >>= next).notes = [] := by
  show (d.bind next).notes = []
  unfold Draft.bind
  cases d.outcome with
  | error e => exact hd
  | ok a =>
    show d.notes ++ (next a).notes = []
    rw [hd, hnext a, List.append_nil]

@[simp] theorem notes_write (stmts : List Stmt) : (write stmts).notes = [] := rfl

@[simp] theorem notes_lift (result : Except GenError α) : (lift result).notes = [] := rfl

theorem notes_each (items : List α) (draft : α → Draft Unit) (h : (each items draft).Finishes) :
    (each items draft).notes = items.flatMap fun item => (draft item).notes := by
  induction items with
  | nil => rfl
  | cons item rest ih =>
    change (draft item >>= fun _ => each rest draft).Finishes at h
    obtain ⟨a, ha, hrest⟩ := (finishes_bind _ _).mp h
    calc (each (item :: rest) draft).notes
        = (draft item >>= fun _ => each rest draft).notes := rfl
      _ = (draft item).notes ++ (each rest draft).notes := notes_bind_of_ok _ _ a ha
      _ = _ := by rw [ih hrest, List.flatMap_cons]

end Draft

theorem methodBody_notes (fields : List FieldView) (draft : Nat → FieldView → Draft Unit)
    (stmts : List Stmt) (notes : List Diagnostic)
    (h : methodBody fields draft = .ok (stmts, notes)) :
    notes = fields.flatMap fun f => (draft 0 f).notes := by
  unfold methodBody Draft.complete at h
  cases houtcome : (Draft.each fields (draft 0)).outcome with
  | error e => simp [houtcome, Except.map] at h
  | ok a =>
    simp only [houtcome, Except.map, Except.ok.injEq, Prod.mk.injEq] at h
    rw [← h.2]
    exact Draft.notes_each fields (draft 0) ⟨a, houtcome⟩

/-- A method without diagnostics in any field has none. -/
theorem methodBody_notes_eq_nil (fields : List FieldView) (draft : Nat → FieldView → Draft Unit)
    (stmts : List Stmt) (notes : List Diagnostic) (h : methodBody fields draft = .ok (stmts, notes))
    (hnone : ∀ f, (draft 0 f).notes = []) : notes = [] := by
  rw [methodBody_notes fields draft stmts notes h]
  simp [hnone]

/-- The element of a collection, and any other shape itself. -/
def Shape.item : Shape → Shape
  | .array element _ | .sequence element _ => element
  | shape => shape

/-- Whether a shape is a number that is more precise than its native form, or holds such numbers. -/
def Shape.losesPrecision (shape : Shape) : Bool :=
  match shape.item with
  | .primitive kind => kind.isExtendedPrecision
  | _ => false

/-- The diagnostic of a field that loses precision. -/
def FieldView.precisionNotes (f : FieldView) : List Diagnostic :=
  if f.shape.losesPrecision then [.extendedPrecisionLoss f.site] else []

theorem Shape.item_element (e : Element) : e.shape.item = e.shape := by
  cases e <;> rfl

theorem noteElementPrecision_notes (f : FieldView) (e : Element) (h : f.shape.item = e.shape) :
    (noteElementPrecision f.site e).notes = f.precisionNotes := by
  unfold FieldView.precisionNotes Shape.losesPrecision
  rw [h]
  cases e with
  | primitive kind => cases kind <;> rfl
  | _ => rfl

namespace Target

variable (t : Target) (depth : Nat) (f : FieldView)

theorem toNative_notes (h : f.shape.Transferable t.layout) :
    (t.toNative depth f).notes = f.precisionNotes := by
  obtain ⟨e, hshape⟩ | ⟨e, dims, hshape, valid⟩ | ⟨e, maxBound, hshape, bridges⟩ := h.cases
  · rw [← noteElementPrecision_notes f e (by rw [hshape, Shape.item_element])]
    unfold toNative
    rw [hshape]
    cases e with
    | primitive kind =>
      show ((notePrecision f.site kind) >>= fun _ => Draft.write _).notes = _
      rw [Draft.notes_bind_of_ok _ _ () (notePrecision_outcome f.site kind), Draft.notes_write,
        List.append_nil]
      rfl
    | _ => rfl
  · rw [← noteElementPrecision_notes f e (by rw [hshape, Shape.item])]
    unfold toNative
    rw [hshape]
    simp only [Element.classify_shape]
    rw [Draft.notes_bind_of_ok _ _ e rfl,
      Draft.notes_bind_of_ok _ _ () (noteElementPrecision_outcome f.site e),
      Draft.notes_bind_of_ok _ _ (e.transfer dims) (arrayTransfer_of_valid f.site e dims valid)]
    cases e.transfer dims <;> simp
  · rw [← noteElementPrecision_notes f e (by rw [hshape, Shape.item])]
    have helement := (t.sequenceElement_ok_iff f e.shape e).mpr ⟨rfl, bridges⟩
    unfold toNative
    rw [hshape]
    simp only [helement]
    rw [Draft.notes_bind_of_ok _ _ e rfl,
      Draft.notes_bind_of_ok _ _ () (noteElementPrecision_outcome f.site e)]
    simp

theorem fromNative_notes (h : f.shape.Transferable t.layout) :
    (t.fromNative depth f).notes = f.precisionNotes := by
  obtain ⟨e, hshape⟩ | ⟨e, dims, hshape, valid⟩ | ⟨e, maxBound, hshape, bridges⟩ := h.cases
  · rw [← noteElementPrecision_notes f e (by rw [hshape, Shape.item_element])]
    unfold fromNative
    rw [hshape]
    cases e with
    | primitive kind =>
      show ((notePrecision f.site kind) >>= fun _ => Draft.write _).notes = _
      rw [Draft.notes_bind_of_ok _ _ () (notePrecision_outcome f.site kind), Draft.notes_write,
        List.append_nil]
      rfl
    | _ => rfl
  · rw [← noteElementPrecision_notes f e (by rw [hshape, Shape.item])]
    unfold fromNative
    rw [hshape]
    simp only [Element.classify_shape]
    rw [Draft.notes_bind_of_ok _ _ e rfl,
      Draft.notes_bind_of_ok _ _ () (noteElementPrecision_outcome f.site e),
      Draft.notes_bind_of_ok _ _ () rfl,
      Draft.notes_bind_of_ok _ _ (e.transfer dims) (arrayTransfer_of_valid f.site e dims valid)]
    cases e.transfer dims <;> simp
  · rw [← noteElementPrecision_notes f e (by rw [hshape, Shape.item])]
    have helement := (t.sequenceElement_ok_iff f e.shape e).mpr ⟨rfl, bridges⟩
    unfold fromNative
    rw [hshape]
    simp only [helement, t.defaultValue_sequence f.site e maxBound]
    rw [Draft.notes_bind_of_ok _ _ _ rfl, Draft.notes_bind_of_ok _ _ e rfl,
      Draft.notes_bind_of_ok _ _ () (noteElementPrecision_outcome f.site e)]
    simp

theorem initial_notes : (t.initial depth f).notes = [] := by
  unfold initial
  refine Draft.notes_bind_eq_nil _ _ rfl fun _ => Draft.notes_bind_eq_nil _ _ rfl fun _ => ?_
  cases f.shape with
  | array element dims =>
    simp only
    cases t.layout.needsElementInit element dims with
    | true => exact Draft.notes_bind_eq_nil _ _ rfl fun _ => rfl
    | false => rfl
  | _ => rfl

theorem releaseNative_notes : (releaseNative depth f).notes = [] := by
  unfold releaseNative
  cases f.shape with
  | array elementShape dims =>
    exact Draft.notes_bind_eq_nil _ _ rfl fun _ => Draft.notes_bind_eq_nil _ _ rfl fun _ => rfl
  | _ => rfl

theorem encode_notes : (t.encode depth f).notes = [] := by
  unfold encode
  cases f.shape with
  | array elementShape dims =>
    exact Draft.notes_bind_eq_nil _ _ rfl fun _ => Draft.notes_bind_eq_nil _ _ rfl fun _ => rfl
  | sequence elementShape maxBound => exact Draft.notes_bind_eq_nil _ _ rfl fun _ => rfl
  | _ => rfl

theorem decode_notes : (t.decode depth f).notes = [] := by
  unfold decode
  cases f.shape with
  | array elementShape dims =>
    exact Draft.notes_bind_eq_nil _ _ rfl fun _ => Draft.notes_bind_eq_nil _ _ rfl fun _ => rfl
  | sequence elementShape maxBound => exact Draft.notes_bind_eq_nil _ _ rfl fun _ => rfl
  | _ => rfl

end Target

/-- The diagnostics of fields that lose precision, in order. -/
def precisionNotes (fields : List FieldView) : List Diagnostic :=
  fields.flatMap FieldView.precisionNotes

namespace Target

variable (t : Target)

theorem codecBodies_notes (fields : List FieldView) (bodies : List Stmt × List Stmt)
    (notes : List Diagnostic) (h : t.codecBodies fields = .ok (bodies, notes)) : notes = [] := by
  simp only [codecBodies, except_bind_ok_iff] at h
  obtain ⟨⟨_, encodeNotes⟩, hencode, ⟨_, decodeNotes⟩, hdecode, hresult⟩ := h
  cases hresult
  rw [methodBody_notes_eq_nil fields t.encode _ encodeNotes hencode (t.encode_notes 0),
    methodBody_notes_eq_nil fields t.decode _ decodeNotes hdecode (t.decode_notes 0)]
  rfl

/-- Each conversion raises the diagnostics once, and nothing else raises any. -/
theorem valueClass_notes (codec : Bool) (s : StructType) (fields : List FieldView)
    (c : ValueClass) (notes : List Diagnostic)
    (h : t.valueClass codec s fields = .ok (c, notes)) :
    notes = precisionNotes fields ++ precisionNotes fields := by
  have htransfer : ∀ f ∈ fields, f.shape.Transferable t.layout := fun f hf =>
    ((t.valueClass_ok_iff codec s fields).mp ⟨_, h⟩ f hf).1
  simp only [valueClass, except_bind_ok_iff] at h
  obtain ⟨_, _, ⟨_, initialNotes⟩, hinitial, ⟨_, toNotes⟩, hto, ⟨_, fromNotes⟩, hfrom,
    ⟨_, releaseNotes⟩, hrelease, h⟩ := h
  have hall : notes = initialNotes ++ toNotes ++ fromNotes ++ releaseNotes := by
    cases codec with
    | false =>
      cases h
      simp
    | true =>
      simp only [if_true, except_bind_ok_iff] at h
      obtain ⟨⟨bodies, codecNotes⟩, hbodies, _, hpure, hresult⟩ := h
      cases hpure
      cases hresult
      rw [t.codecBodies_notes fields bodies codecNotes hbodies, List.append_nil]
  have htoNotes : toNotes = precisionNotes fields := by
    rw [methodBody_notes fields t.toNative _ toNotes hto]
    exact List.flatMap_congr fun f hf => t.toNative_notes 0 f (htransfer f hf)
  have hfromNotes : fromNotes = precisionNotes fields := by
    rw [methodBody_notes fields t.fromNative _ fromNotes hfrom]
    exact List.flatMap_congr fun f hf => t.fromNative_notes 0 f (htransfer f hf)
  rw [hall, methodBody_notes_eq_nil fields t.initial _ initialNotes hinitial (t.initial_notes 0),
    methodBody_notes_eq_nil fields releaseNative _ releaseNotes hrelease (releaseNative_notes 0),
    htoNotes, hfromNotes, List.nil_append, List.append_nil]

end Target

/-- The diagnostics of a declaration, which only a struct can have. -/
def Declaration.notes : Declaration → List Diagnostic
  | .struct s => precisionNotes (Target.views s)
  | _ => []

namespace Target

variable (t : Target)

/-- The diagnostics of a declaration do not depend on what it is generated for. -/
theorem declarationCode_notes (wireCodec : Bool) (d : Declaration) (code : DeclarationCode)
    (h : t.declarationCode wireCodec d = .ok code) : code.notes = d.notes ++ d.notes := by
  cases d with
  | struct s =>
    obtain ⟨c, notes, _, hclass, _, rfl⟩ := t.structCode_parts wireCodec s code h
    exact t.valueClass_notes _ s (views s) c notes hclass
  | enum e =>
    cases h
    rfl
  | const c =>
    obtain ⟨_, _, _, rfl⟩ := constCode_parts h
    rfl
  | «alias» a =>
    cases h
    rfl
  | union u => cases h

end Target

end InteropGen

import Mathlib.Data.List.Nodup
import InteropGen.Proofs.Blocks.Closed
import InteropGen.Proofs.Methods
import InteropGen.Proofs.Scopes.Parts

/-!
# Scopes of methods

The statements of a field, in the scope that the parameters of a method make: every variable that
they declare is new there, and nothing that they declare is left to the next field.

* `Target.toNative_enclosed` and its like — a field in each method, by its shape;
* `Generator.locals_never_clash` — the methods of an accepted struct.
-/

set_option autoImplicit false

namespace InteropGen

open CSharp

section
variable {stem : String}

namespace Target

variable (t : Target) (e : Element) (depth : Nat) (f : FieldView) {dims : List Nat}

/-! ### Conversions of one field -/

theorem inlineArrayToNative_enclosed (hdims : dims ≠ []) (length : Nat) :
    Enclosed stem [.wrapper, .toRelease] (t.inlineArrayToNative depth f e dims length) := by
  unfold inlineArrayToNative
  split
  · simp [Enclosed]
  · refine .cons (by simp) rfl (loopNest_enclosed depth hdims (by simp) ofProperty_none _ ?_)
    intro indices scope' hinside hindices
    have hwrapper : .wrapper ∈ scope' := hinside.kept (by simp)
    have hrelease : .toRelease ∈ scope' := hinside.kept (by simp)
    have hplace : (Expr.index f.native [flatIndex dims indices]).Resolved stem scope' := by
      simp [hwrapper, flatIndex_resolved dims indices hindices]
    exact (t.elementToNative_enclosed e _ _ (elementAt_resolved _ f indices hindices) hplace
      hrelease).bodyScoped

theorem outOfLineArrayToNative_enclosed (hdims : dims ≠ []) (length : Nat) :
    Enclosed stem [.wrapper, .toRelease] (t.outOfLineArrayToNative depth f e dims length) := by
  have hsize : (t.slot e).size.Resolved stem [.wrapper, .toRelease] := t.slotSize_resolved e
  have hslots : Enclosed stem [.size, .wrapper, .toRelease] (loopNest depth dims none fun indices =>
      t.storeInSlot e f.native (slotOffset dims indices) (t.layout.elementAt f.value indices)) := by
    refine loopNest_enclosed depth hdims (by simp) ofProperty_none _ ?_
    intro indices scope' hinside hindices
    have hkept : ∀ x ∈ [Local.size, .wrapper, .toRelease], x ∈ scope' := hinside.kept
    exact t.storeInSlot_scoped e _ _ _ (by simpa using hkept .wrapper (by simp))
      (slotOffset_resolved dims indices hindices (hkept .size (by simp)))
      (elementAt_resolved _ f indices hindices) (hkept .toRelease (by simp))
      (hinside.notMem (by simp) nofun) (hinside.notMem (by simp) nofun)
  simp [Enclosed, outOfLineArrayToNative, allocate, hsize, hslots.bodyScoped]

theorem sequenceToNative_enclosed (maxBound : Nat) :
    Enclosed stem [.wrapper, .toRelease] (t.sequenceToNative depth f e maxBound) := by
  have hcount : (bounded (.listCount f.value) maxBound).Resolved stem [.wrapper, .toRelease] :=
    bounded_resolved _ maxBound (by simp)
  have hsize : (t.slot e).size.Resolved stem [.count, .wrapper, .toRelease] := t.slotSize_resolved e
  have hslots : BodyScoped stem [.counter depth, .size, .count, .wrapper, .toRelease]
      (t.storeInSlot e f.native (sequenceOffset (counter depth))
        (.index f.value [counter depth])) :=
    t.storeInSlot_scoped e _ _ _ (by simp) (by simp [sequenceOffset]) (by simp) (by simp) (by simp)
      (by simp)
  simp [Enclosed, sequenceToNative, allocate, countedLoop, hcount, hsize, hslots]

theorem inlineArrayFromNative_enclosed (hdims : dims ≠ []) (length : Nat) :
    Enclosed stem [.wrapper] (t.inlineArrayFromNative depth f e dims length) := by
  unfold inlineArrayFromNative
  split
  · simp [Enclosed]
  · refine loopNest_enclosed depth hdims (by simp) (ofProperty_rows? _ _ _ _) _ ?_
    intro indices scope' hinside hindices
    have hwrapper : .wrapper ∈ scope' := hinside.kept (by simp)
    have hplace : (Expr.index f.native [flatIndex dims indices]).Resolved stem scope' := by
      simp [hwrapper, flatIndex_resolved dims indices hindices]
    exact (t.elementFromNative_enclosed e _ _ (elementAt_resolved _ f indices hindices)
      hplace).bodyScoped

theorem outOfLineArrayFromNative_enclosed (hdims : dims ≠ []) :
    Enclosed stem [.wrapper] (t.outOfLineArrayFromNative depth f e dims) := by
  have hsize : (t.slot e).size.Resolved stem [.wrapper] := t.slotSize_resolved e
  have hslots : Enclosed stem [.size, .wrapper] (loopNest depth dims none fun indices =>
      t.loadFromSlot e f.native (slotOffset dims indices) fun staged =>
        .assign (t.layout.elementAt f.value indices) staged) := by
    refine loopNest_enclosed depth hdims (by simp) ofProperty_none _ ?_
    intro indices scope' hinside hindices
    have hkept : ∀ x ∈ [Local.size, .wrapper], x ∈ scope' := hinside.kept
    exact t.loadFromSlot_scoped e _ _ _ (by simpa using hkept .wrapper (by simp))
      (slotOffset_resolved dims indices hindices (hkept .size (by simp)))
      (hinside.notMem (by simp) nofun) (hinside.notMem (by simp) nofun)
      fun x scope'' hsubset hx =>
        ⟨elementAt_resolved _ f indices (AllResolved.mono hsubset indices hindices), hx⟩
  refine (allRows_enclosed depth (by simp) (ofProperty_rows? _ _ _ _)).append ?_
  simp [Enclosed, isHandle, hsize, hslots.bodyScoped]

theorem sequenceFromNative_enclosed (maxBound : Nat) (fresh : Expr)
    (hfresh : fresh.Resolved stem [.wrapper]) :
    Enclosed stem [.wrapper] (t.sequenceFromNative depth f e maxBound fresh) := by
  have hcount : (bounded (.call (.read .int32) [f.native, .nat 0]) maxBound).Resolved stem
      [.wrapper] := bounded_resolved _ maxBound (by simp)
  have hsize : (t.slot e).size.Resolved stem [.count, .wrapper] := t.slotSize_resolved e
  have hslots : BodyScoped stem [.counter depth, .size, .count, .wrapper]
      (t.loadFromSlot e f.native (sequenceOffset (counter depth)) fun staged =>
        .run (.invoke f.value .add [staged])) :=
    t.loadFromSlot_scoped e _ _ _ (by simp) (by simp [sequenceOffset]) (by simp) (by simp)
      fun x scope' _ hx => by simp [hx]
  simp [Enclosed, sequenceFromNative, isHandle, countedLoop, hfresh, hcount, hsize, hslots]

theorem fillArray_enclosed (hdims : dims ≠ []) :
    Enclosed stem [] (t.fillArray depth f e dims) := by
  have hrows : OfProperty (t.layout.rows? f.value e.valueType dims) := ofProperty_rows? _ _ _ _
  unfold fillArray
  cases hfill : e.fill? with
  | none => exact allRows_enclosed depth (by simp) hrows
  | some fill =>
    have hinitial : fill = e.initialValue := by
      cases e <;> cases hfill <;> rfl
    refine loopNest_enclosed depth hdims (by simp) hrows _ fun indices scope' _ hindices => ?_
    rw [hinitial]
    exact ⟨⟨elementAt_resolved _ f indices hindices, e.initialValue_resolved⟩, trivial⟩

theorem releaseArray_enclosed (length : Nat) :
    Enclosed stem [.wrapper, .toRelease] (releaseArray depth f.native e (.inline length)) := by
  cases e with
  | string kind => simp [Enclosed, releaseArray, whenPresent]
  | struct s =>
    have hnest : Enclosed stem [.wrapper, .toRelease] (loopNest depth [length] none fun indices =>
        [releaseStruct s (.index f.native indices)]) := by
      refine loopNest_enclosed depth (by simp) (by simp) ofProperty_none _ ?_
      intro indices scope' hinside hindices
      have hwrapper : .wrapper ∈ scope' := hinside.kept (by simp)
      have hrelease : .toRelease ∈ scope' := hinside.kept (by simp)
      simp [releaseStruct, hwrapper, hrelease, hindices]
    simp [Enclosed, releaseArray, whenPresent, hnest.bodyScoped]
  | _ => exact .nil

theorem toNative_enclosed (h : f.shape.Transferable t.layout) :
    Enclosed stem [.wrapper, .toRelease] (t.toNative depth f).stmts := by
  obtain ⟨e, hshape⟩ | ⟨e, dims, hshape, valid⟩ | ⟨e, maxBound, hshape, bridges⟩ := h.cases
  · rw [t.toNative_element depth f e hshape]
    exact t.elementToNative_enclosed e _ _ (by simp) (by simp) (by simp)
  · rw [t.toNative_array depth f e dims hshape valid]
    cases e.transfer dims with
    | inline length => exact t.inlineArrayToNative_enclosed e depth f valid.1 length
    | outOfLine length => exact t.outOfLineArrayToNative_enclosed e depth f valid.1 length
  · rw [t.toNative_sequence depth f e maxBound hshape bridges]
    exact t.sequenceToNative_enclosed e depth f maxBound

theorem fromNative_enclosed (h : f.shape.Transferable t.layout) :
    Enclosed stem [.wrapper] (t.fromNative depth f).stmts := by
  obtain ⟨e, hshape⟩ | ⟨e, dims, hshape, valid⟩ | ⟨e, maxBound, hshape, bridges⟩ := h.cases
  · rw [t.fromNative_element depth f e hshape]
    exact t.elementFromNative_enclosed e _ _ (by simp) (by simp)
  · rw [t.fromNative_array depth f e dims hshape valid]
    refine .cons ⟨f.value_resolved, arrayAllocation_resolved ..⟩ rfl ?_
    cases e.transfer dims with
    | inline length => exact t.inlineArrayFromNative_enclosed e depth f valid.1 length
    | outOfLine length => exact t.outOfLineArrayFromNative_enclosed e depth f valid.1
  · rw [t.fromNative_sequence depth f e maxBound hshape bridges]
    exact t.sequenceFromNative_enclosed e depth f maxBound _ (listAllocation_resolved ..)

theorem releaseNative_enclosed (h : f.shape.Transferable t.layout) :
    Enclosed stem [.wrapper, .toRelease] (InteropGen.releaseNative depth f).stmts := by
  obtain ⟨e, hshape⟩ | ⟨e, dims, hshape, valid⟩ | ⟨e, maxBound, hshape, _⟩ := h.cases
  · rw [release_element depth f e hshape]
    cases e <;> simp [Enclosed, releaseElement, releaseStruct, resetHandle]
  · rw [release_array depth f e dims hshape valid]
    cases e.transfer dims with
    | inline length => exact releaseArray_enclosed e depth f length
    | outOfLine length => simp [Enclosed, releaseArray, resetHandle]
  · rw [release_sequence depth f e maxBound hshape]
    simp [Enclosed, resetHandle]

theorem initial_enclosed (h : f.shape.Transferable t.layout) :
    Enclosed stem [] (t.initial depth f).stmts := by
  obtain ⟨e, hshape⟩ | ⟨e, dims, hshape, valid⟩ | ⟨e, maxBound, hshape, _⟩ := h.cases
  · rw [t.initial_element depth f e hshape]
    exact .cons ⟨f.value_resolved, e.initialValue_resolved⟩ rfl .nil
  · rw [t.initial_array depth f e dims hshape valid]
    refine .cons ⟨f.value_resolved, arrayAllocation_resolved ..⟩ rfl ?_
    split
    · exact t.fillArray_enclosed e depth f valid.1
    · exact .nil
  · rw [t.initial_sequence depth f e maxBound hshape]
    exact .cons ⟨f.value_resolved, listAllocation_resolved ..⟩ rfl .nil

theorem encode_enclosed (h : f.shape.Encodable) :
    Enclosed stem [.writer] (t.encode depth f).stmts := by
  obtain ⟨e, tag, hshape, htag⟩ | ⟨en, hshape⟩ | ⟨e, tag, dims, hshape, htag, valid⟩ |
    ⟨e, tag, maxBound, hshape, htag⟩ := h.cases
  · rw [t.encode_scalar depth f e tag hshape htag]
    simp [Enclosed, writeCall]
  · rw [t.encode_enum depth f en hshape]
    simp [Enclosed, writeCall]
  · rw [t.encode_array depth f e tag dims hshape htag valid]
    unfold encodeArray
    split
    · refine loopNest_enclosed depth valid.1 (by simp) ofProperty_none _ ?_
      intro indices scope' hinside hindices
      have hwriter : .writer ∈ scope' := hinside.kept (by simp)
      simp [writeCall, hwriter, elementAt_resolved t.layout f indices hindices]
    · simp [Enclosed, writeCall]
  · rw [t.encode_sequence depth f e tag maxBound hshape htag]
    simp [Enclosed, writeCall, boundArgument_resolved maxBound]

theorem decode_enclosed (h : f.shape.Encodable) :
    Enclosed stem [.reader] (t.decode depth f).stmts := by
  obtain ⟨e, tag, hshape, htag⟩ | ⟨en, hshape⟩ | ⟨e, tag, dims, hshape, htag, valid⟩ |
    ⟨e, tag, maxBound, hshape, htag⟩ := h.cases
  · rw [t.decode_scalar depth f e tag hshape htag]
    simp [Enclosed, readCall]
  · rw [t.decode_enum depth f en hshape]
    simp [Enclosed, enumFromTransfer]
  · rw [t.decode_array depth f e tag dims hshape htag valid]
    unfold decodeArray
    split
    · refine .cons ⟨f.value_resolved, arrayAllocation_resolved ..⟩ rfl ?_
      refine loopNest_enclosed depth valid.1 (by simp) (ofProperty_rows? _ _ _ _) _ ?_
      intro indices scope' hinside hindices
      have hreader : .reader ∈ scope' := hinside.kept (by simp)
      simp [readCall, hreader, elementAt_resolved t.layout f indices hindices]
    · simp [Enclosed, readCall]
  · rw [t.decode_sequence depth f e tag maxBound hshape htag]
    simp [Enclosed, readCall, boundArgument_resolved maxBound]

/-! ### Methods -/

end Target

/-- The variables that a method starts with. -/
def Direction.locals (direction : Direction) (transferName : String) : List Local :=
  (direction.parameters transferName).map (·.2)

theorem Target.draftOf_enclosed (t : Target) (direction : Direction) (transferName : String)
    (depth : Nat) (f : FieldView) (h : direction.Accepts t.layout f.shape) :
    Enclosed stem (direction.locals transferName) (t.draftOf direction depth f).stmts := by
  cases direction with
  | toTransfer => exact t.toNative_enclosed depth f h
  | fromTransfer => exact t.fromNative_enclosed depth f h
  | release => exact t.releaseNative_enclosed depth f h
  | encode => exact t.encode_enclosed depth f h
  | decode => exact t.decode_enclosed depth f h
  | initial => exact t.initial_enclosed depth f h

theorem Direction.opening_enclosed (direction : Direction) (transferName : String) :
    Enclosed stem (direction.locals transferName) direction.opening := by
  cases direction with
  | release =>
    simp [Enclosed, opening, freeReleased, locals, parameters]
  | _ => exact .nil

/-- In the methods of an accepted struct, nothing is declared twice, and every name stands for the
variable that is meant. -/
theorem Target.structCode_scoped {t : Target} {wireCodec : Bool} {s : StructType}
    {code : DeclarationCode} (h : t.structCode wireCodec s = .ok code) :
    ∃ c, code.units.values = some ⟨s.name.enclosing, .valueClass c⟩ ∧
      ∀ stem direction body, c.body? direction = some body →
        BodyScoped stem (direction.locals c.transferName) body := by
  obtain ⟨c, hunit, hmethods⟩ := t.structCode_methods h
  refine ⟨c, hunit, fun stem direction body hbody => ?_⟩
  obtain ⟨rfl, haccepts⟩ := hmethods direction body hbody
  exact ((direction.opening_enclosed _).append (.flatMap fun f hf =>
    t.draftOf_enclosed direction _ 0 f (haccepts f hf))).bodyScoped

theorem Direction.locals_nodup (direction : Direction) (transferName : String) :
    ((direction.locals transferName).map (·.name stem)).Nodup :=
  List.Nodup.map (Local.name_injective stem)
    (by cases direction <;> simp [locals, parameters])

end

/-- A counter can be declared under its name. -/
theorem counter_name_usable {stem : String} (h : isIdentifier stem = true) (depth : Nat) :
    isIdentifier ((Local.counter depth).name stem) = true ∧
      (Local.counter depth).name stem ∉ keywords := by
  have hname := Reading.isName_counterWord h depth
  simpa [Reading.isName, Reading.counterWord] using hname

/-- **Local variables.** Under valid settings, let a struct be accepted. In each of its methods no
variable is declared under a name that a parameter or a variable around it has, every name stands
for the variable that is meant, so that a counter is that of the innermost loop of its name, and the
counters of loops inside each other differ. No counter is a keyword or named like another
variable. -/
theorem Generator.locals_never_clash (g : Generator) {s : StructType} {out : DeclarationOutput}
    (hsettings : g.settings.check = .ok ()) (h : g.emit (.struct s) = .ok out) :
    (∀ layout ∈ g.settings.targets, ∃ code c,
      (g.target layout).declarationCode g.settings.wireCodec (.struct s) = .ok code ∧
      out.targets.get? layout = some (g.unitText (.struct s) code) ∧
      code.units.values = some ⟨s.name.enclosing, .valueClass c⟩ ∧
      ∀ direction body, c.body? direction = some body →
        ((direction.locals c.transferName).map (·.name g.settings.counterStem)).Nodup ∧
        BodyScoped g.settings.counterStem (direction.locals c.transferName) body ∧
        ∀ nest ∈ bodyNests [] body, (nest.map (·.name g.settings.counterStem)).Nodup) ∧
    ∀ depth,
      isIdentifier ((Local.counter depth).name g.settings.counterStem) = true ∧
      (Local.counter depth).name g.settings.counterStem ∉ keywords ∧
      ∀ x : Local,
        x.name g.settings.counterStem = (Local.counter depth).name g.settings.counterStem →
          x = .counter depth := by
  constructor
  · intro layout hlayout
    obtain ⟨code, hcode, htext⟩ := (g.emitted h).text layout hlayout
    obtain ⟨c, hunit, hscoped⟩ := Target.structCode_scoped hcode
    refine ⟨code, c, hcode, htext, hunit, fun direction body hbody => ?_⟩
    have hbody := hscoped g.settings.counterStem direction body hbody
    have hnone : (([] : List Local).map (·.name g.settings.counterStem)).Nodup := List.nodup_nil
    exact ⟨direction.locals_nodup _, hbody,
      BodyScoped.nests_nodup hnone (List.nil_subset _) body hbody⟩
  · intro depth
    obtain ⟨hidentifier, hkeyword⟩ :=
      counter_name_usable (Generator.counterStem_of_check hsettings) depth
    exact ⟨hidentifier, hkeyword, fun x hx => Local.name_injective _ hx⟩

namespace Trawler

def box : StructType := ⟨.ofSegments ["Trawler", "Box"], [⟨"mark", .primitive .octet⟩], none⟩

/-- Arrays of several dimensions in a row and in memory of their own, and a list of texts. -/
def hold : StructType :=
  ⟨.ofSegments ["Trawler", "Hold"],
    [⟨"nets", .fixedArray (.primitive .wchar) [2, 3, 4]⟩,
      ⟨"boxes", .fixedArray (.struct box) [2, 2]⟩,
      ⟨"crew", .sequence .narrowString 8⟩], none⟩

/-- The counters are numbered after the name of a variable. -/
def generator : Generator := ⟨{ Settings.default with counterStem := "count" }, .empty⟩

end Trawler

theorem trawler_locals :
    ∃ out code c, Trawler.generator.emit (.struct Trawler.hold) = .ok out ∧
      out.targets.get? .jagged = some (Trawler.generator.unitText (.struct Trawler.hold) code) ∧
      code.units.values = some ⟨some "Trawler", .valueClass c⟩ ∧
      BodyScoped "count" [.wrapper, .toRelease] c.toNative ∧
      BodyScoped "count" [.wrapper] c.fromNative ∧
      ∀ nest ∈ bodyNests [] c.fromNative, (nest.map (·.name "count")).Nodup := by
  obtain ⟨hmethods, -⟩ :=
    Trawler.generator.locals_never_clash (s := Trawler.hold) (by decide) rfl
  obtain ⟨code, c, -, htext, hunit, hbodies⟩ := hmethods .jagged (by decide)
  obtain ⟨-, hto, -⟩ := hbodies .toTransfer c.toNative rfl
  obtain ⟨-, hfrom, hnests⟩ := hbodies .fromTransfer c.fromNative rfl
  exact ⟨_, code, c, rfl, htext, hunit, hto, hfrom, hnests⟩

end InteropGen

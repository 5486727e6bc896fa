import InteropGen.Proofs.Arrays.Nest
import InteropGen.Proofs.Transfer.Values

/-!
# Traces of array conversions

The events of the statements that each method writes for a field of array type, element kinds and
both layouts included.

* `Target.trace_toNative`, `Target.trace_fromNative` — into the transfer struct and back;
* `Target.trace_initial`, `Target.trace_decode` — the constructor, and the loops of `Decode`.
-/

set_option autoImplicit false

namespace InteropGen

open CSharp

namespace Element

/-- An element put into a place of the transfer struct. -/
def storeEvents (e : Element) (place value : Spot) : List Event :=
  match e with
  | .primitive _ | .enum _ => [.assign place [value]]
  | .string _ => [.assign place [value], .visit [place]]
  | .struct _ => [.fill place [value]]

/-- An element put into a place of the value object. -/
def loadEvents (e : Element) (place native : Spot) : List Event :=
  match e with
  | .primitive _ | .string _ | .enum _ => [.assign place [native]]
  | .struct _ => [.assign place [], .fill place [native]]

/-- The first value of an element that would be null otherwise. -/
def initialEvents (e : Element) (place : Spot) : List Event :=
  if e.shape.isNullByDefault then [.assign place []] else []

end Element

section
variable {sc : Scope} {place value : Expr} {owner owner' : Owner} {name name' : String}
  {groups groups' : List (List Nat)}

/-- A value that is assigned as it is, or through a cast. -/
theorem trace_assignItem {e : Expr} (he : e = value ∨ ∃ type, e = .cast type value)
    (hplace : place.spot? sc = some (.element owner name groups))
    (hvalue : value.spot? sc = some (.element owner' name' groups')) :
    (Stmt.assign place e).trace? sc =
      some [.assign (.element owner name groups) [.element owner' name' groups']] := by
  have hsource := sources_of_spot hvalue
  rcases he with rfl | ⟨type, rfl⟩
  · refine trace_assign hplace hsource ?_
    rintro arguments rfl
    simp [Expr.spot?] at hvalue
  · exact trace_assign hplace (by simpa [Expr.sources?] using hsource) (by simp)

theorem primitiveToTransfer_cases (platform : Platform) (kind : PrimitiveKind) (e : Expr) :
    platform.primitiveToTransfer kind e = e ∨
      ∃ type, platform.primitiveToTransfer kind e = .cast type e := by
  unfold Platform.primitiveToTransfer
  split
  · exact .inr ⟨_, rfl⟩
  · split
    · exact .inr ⟨_, rfl⟩
    · exact .inl rfl
  · exact .inl rfl

theorem primitiveFromTransfer_cases (platform : Platform) (kind : PrimitiveKind) (e : Expr) :
    platform.primitiveFromTransfer kind e = e ∨
      ∃ type, platform.primitiveFromTransfer kind e = .cast type e := by
  unfold Platform.primitiveFromTransfer
  split
  · exact .inr ⟨_, rfl⟩
  · split
    · exact .inr ⟨_, rfl⟩
    · exact .inl rfl
  · exact .inl rfl

variable (t : Target) (e : Element)

/-- An element on its way into an inline array. -/
theorem trace_elementToNative (hplace : place.spot? sc = some (.element .transfer name groups))
    (hvalue : value.spot? sc = some (.element .value name' groups')) :
    bodyTrace? (t.elementToNative e value place) sc =
      some (e.storeEvents (.element .transfer name groups) (.element .value name' groups')) := by
  cases e with
  | primitive kind =>
    exact bodyTrace_single
      (trace_assignItem (primitiveToTransfer_cases t.platform kind value) hplace hvalue)
  | string kind =>
    have hcopy : (t.platform.stringToNative kind value).sources? sc =
        some [.element .value name' groups'] := by
      simp [Platform.stringToNative, Expr.sources?, allSources?, sources_of_spot hvalue, appendNew]
    exact bodyTrace_cons (trace_assign hplace hcopy (by simp [Platform.stringToNative]))
      (bodyTrace_single (trace_enlist (sources_of_spot hplace)))
  | enum en => exact bodyTrace_single (trace_assignItem (.inr ⟨_, rfl⟩) hplace hvalue)
  | struct s => exact bodyTrace_single (trace_convertStruct hplace hvalue)

/-- An element on its way out of an inline array. -/
theorem trace_elementFromNative (hplace : place.spot? sc = some (.element owner name groups))
    (hnative : value.spot? sc = some (.element owner' name' groups')) :
    bodyTrace? (t.elementFromNative e place value) sc =
      some (e.loadEvents (.element owner name groups) (.element owner' name' groups')) := by
  cases e with
  | primitive kind =>
    exact bodyTrace_single
      (trace_assignItem (primitiveFromTransfer_cases t.platform kind value) hplace hnative)
  | string kind =>
    have htext : (t.platform.stringFromNative kind value).sources? sc =
        some [.element owner' name' groups'] := by
      simp [Platform.stringFromNative, Expr.sources?, allSources?, sources_of_spot hnative, appendNew]
    exact bodyTrace_single (trace_assign hplace htext (by simp [Platform.stringFromNative]))
  | enum en => exact bodyTrace_single (trace_assignItem (.inr ⟨_, rfl⟩) hplace hnative)
  | struct s =>
    have hnew : (Expr.newObject (valueTypeOf s.name) []).sources? sc = some [] := rfl
    exact bodyTrace_cons (trace_assign hplace hnew (by simp))
      (bodyTrace_single (trace_fromNative hplace (sources_of_spot hnative)))

end

/-- The place of an element in the flattened array, in the transfer struct or in a buffer behind
it. In the buffer it is at the product of its position and the size of a slot, in 32 bits. -/
def Target.nativeItem (m : Machine) (t : Target) (f : FieldView) (e : Element) (dims : List Nat)
    (position : Nat) : Spot :=
  match e.transfer dims with
  | .inline _ => .element .transfer f.site.field [[position]]
  | .outOfLine _ =>
    .slot f.site.field (t.elementTransferType e) (int32 (position * (t.slot e).width m))

namespace Target

variable (m : Machine) (t : Target) (f : FieldView) (e : Element) (dims : List Nat)

/-- The events of `ToNative` for an array. -/
def toNativeEvents : List Event :=
  match e.transfer dims with
  | .inline length =>
    .allocate f.transfer (t.elementTransferType e) [length] 0 ::
      if !multiDimensional dims && t.platform.copiesDirectly e then
        [.copy (.value, f.site.field) (.transfer, f.site.field) length]
      else
        (rowMajor dims).flatMap fun idx =>
          e.storeEvents (t.nativeItem m f e dims (flat dims idx)) (f.item t.layout idx)
  | .outOfLine length =>
    .reserve f.transfer (t.elementTransferType e) (int32 ((t.slot e).width m * length)) ::
      .visit [f.transfer] ::
      (rowMajor dims).flatMap fun idx =>
        [.visit [f.item t.layout idx],
          .assign (t.nativeItem m f e dims (flat dims idx)) [f.item t.layout idx]]

/-- The events of `FromNative` for an array; `present` tells whether the handle of an out-of-line
array is not null. -/
def fromNativeEvents (present : Bool) : List Event :=
  match e.transfer dims with
  | .inline length =>
    if !multiDimensional dims && t.platform.copiesDirectly e then
      f.arrayEvents t.layout e.valueType dims (fun _ => []) ++
        [.copy (.transfer, f.site.field) (.value, f.site.field) length]
    else
      f.arrayEvents t.layout e.valueType dims fun idx =>
        e.loadEvents (f.item t.layout idx) (t.nativeItem m f e dims (flat dims idx))
  | .outOfLine _ =>
    f.arrayEvents t.layout e.valueType dims (fun _ => []) ++
      if present then
        (rowMajor dims).flatMap fun idx =>
          [.visit [t.nativeItem m f e dims (flat dims idx)],
            .assign (f.item t.layout idx) [t.nativeItem m f e dims (flat dims idx)]]
      else []

/-- The events of the constructor for an array. -/
def initialEvents : List Event :=
  f.arrayEvents t.layout e.valueType dims fun idx => e.initialEvents (f.item t.layout idx)

/-- The events of `Decode` for an array of several dimensions. -/
def decodeEvents : List Event :=
  f.arrayEvents t.layout e.valueType dims fun idx => [.assign (f.item t.layout idx) []]

/-- A struct on its way into its slot. -/
theorem trace_storeInSlot (s : StructType) {sc : Scope} {depth : Nat} {counters : List Expr}
    {idx : List Nat} (valid : ValidDims dims) (hsize : sc.slotType = some (t.transferTypeOf s.name))
    (h : Counting depth sc.env counters idx) (hidx : InBounds dims idx) :
    bodyTrace? (t.storeInSlot (.struct s) f.native (slotOffset dims counters)
        (t.layout.elementAt f.value counters)) sc =
      some [.visit [f.item t.layout idx],
        .assign (.slot f.site.field (t.transferTypeOf s.name)
            (int32 (flat dims idx * (t.slot (.struct s)).width sc.machine)))
          [f.item t.layout idx]] := by
  let type := t.transferTypeOf s.name
  let fresh : Scope := { sc with locals := (.element, type, []) :: sc.locals }
  let filled : Scope := { fresh with
    locals := (.element, type, [f.item t.layout idx]) :: fresh.locals }
  have hitem : (t.layout.elementAt f.value counters).spot? fresh = some (f.item t.layout idx) :=
    spot_elementAt t.layout f h
  have hvisit : (convertStruct (t.layout.elementAt f.value counters) (.var .element)).trace? fresh =
      some [.visit [f.item t.layout idx]] := by
    simp [Stmt.trace?, convertStruct, Stmt.leafTrace?, Expr.callTrace?, hitem, Expr.isElement,
      FieldView.item]
  have hfilled : fresh.after (convertStruct (t.layout.elementAt f.value counters) (.var .element)) =
      filled := by
    simp [convertStruct, Scope.after, Scope.feed, hitem, fresh, filled, appendNew, type]
  let place : Spot := .slot f.site.field type
    (int32 (flat dims idx * (t.slot (.struct s)).width sc.machine))
  have hslot : (Expr.call .intPtrAdd [f.native, slotOffset dims counters]).spot? filled =
      some place := spot_slot f valid hsize h hidx
  have hstore : (Stmt.run ((t.slot (.struct s)).write f.native (slotOffset dims counters)
      (.var .element))).trace? filled =
      some [.assign place [f.item t.layout idx]] := by
    simp [Stmt.trace?, Stmt.leafTrace?, slot, Slot.write, Expr.callTrace?, hslot, filled, type, place]
  have hlast := bodyTrace_single hstore
  rw [← hfilled] at hlast
  have hdeclare : (Stmt.declare type .element (.newObject type [])).trace? sc = some [] := rfl
  exact bodyTrace_cons hdeclare (bodyTrace_cons hvisit hlast)

/-- A struct taken from its slot. -/
theorem trace_loadFromSlot (s : StructType) {sc : Scope} {depth : Nat} {counters : List Expr}
    {idx : List Nat} (valid : ValidDims dims) (hsize : sc.slotType = some (t.transferTypeOf s.name))
    (h : Counting depth sc.env counters idx) (hidx : InBounds dims idx) :
    bodyTrace? (t.loadFromSlot (.struct s) f.native (slotOffset dims counters) fun staged =>
        .assign (t.layout.elementAt f.value counters) staged) sc =
      some [.visit [.slot f.site.field (t.transferTypeOf s.name)
          (int32 (flat dims idx * (t.slot (.struct s)).width sc.machine))],
        .assign (f.item t.layout idx) [.slot f.site.field (t.transferTypeOf s.name)
          (int32 (flat dims idx * (t.slot (.struct s)).width sc.machine))]] := by
  let type := valueTypeOf s.name
  let source : Spot := .slot f.site.field (t.transferTypeOf s.name)
    (int32 (flat dims idx * (t.slot (.struct s)).width sc.machine))
  let read := (t.slot (.struct s)).read f.native (slotOffset dims counters)
  let fresh : Scope := { sc with locals := (.element, type, []) :: sc.locals }
  let filled : Scope := { fresh with locals := (.element, type, [source]) :: fresh.locals }
  have hread : read.sources? fresh = some [source] := by
    have hslot : (Expr.call .intPtrAdd [f.native, slotOffset dims counters]).spot? fresh =
        some source := spot_slot f valid hsize h hidx
    simp [read, slot, Slot.read, Expr.sources?, hslot, source]
  have hvisit : (Stmt.run (.invoke (.var .element) .fromNative [read])).trace? fresh =
      some [.visit [source]] := by
    simp [Stmt.trace?, Stmt.leafTrace?, Expr.callTrace?, hread, visits, Expr.isElement]
  have hfilled : fresh.after (.run (.invoke (.var .element) .fromNative [read])) = filled := by
    simp [Scope.after, Scope.feed, hread, fresh, filled, appendNew]
  have hitem : (t.layout.elementAt f.value counters).spot? filled = some (f.item t.layout idx) :=
    spot_elementAt t.layout f h
  have hassign : (Stmt.assign (t.layout.elementAt f.value counters) (.var .element)).trace? filled =
      some [.assign (f.item t.layout idx) [source]] :=
    trace_assign hitem (by simp [Expr.sources?, filled]) (by simp)
  have hlast := bodyTrace_single hassign
  rw [← hfilled] at hlast
  have hdeclare : (Stmt.declare type .element (.newObject type [])).trace? sc = some [] := rfl
  exact bodyTrace_cons hdeclare (bodyTrace_cons hvisit hlast)

variable (depth : Nat) (sc : Scope) (valid : ValidDims dims)

include valid

theorem trace_toNative (hshape : f.shape = .array e.shape dims) :
    bodyTrace? (t.toNative depth f).stmts sc = some (t.toNativeEvents sc.machine f e dims) := by
  rw [t.toNative_array depth f e dims hshape valid]
  unfold toNativeEvents
  cases htransfer : e.transfer dims with
  | inline length =>
    have hfresh : (Stmt.assign f.native (.newArray (t.elementTransferType e) [length] 0)).trace? sc =
        some [.allocate f.transfer (t.elementTransferType e) [length] 0] := trace_newArray rfl _ _ _
    unfold inlineArrayToNative
    by_cases hcopy : (!multiDimensional dims && t.platform.copiesDirectly e) = true
    · simp only [if_pos hcopy]
      exact bodyTrace_cons hfresh (bodyTrace_single rfl)
    · simp only [if_neg hcopy]
      refine bodyTrace_cons hfresh ?_
      have hnest := trace_loopNest none _ (fun _ => []) (fun idx =>
        e.storeEvents (t.nativeItem sc.machine f e dims (flat dims idx)) (f.item t.layout idx)) sc dims depth
        (fun depth env counters idx h => rfl) (by
          intro idx hidx depth env counters h
          simp only [nativeItem, htransfer]
          exact trace_elementToNative t e (spot_flatItem f valid h hidx)
            (spot_elementAt t.layout f h))
      rwa [nestEvents_leaves] at hnest
  | outOfLine length =>
    obtain ⟨rfl, s, rfl⟩ := Element.transfer_eq_outOfLine htransfer
    let type := t.transferTypeOf s.name
    let sized : Scope := { sc with slotType := some type }
    have hsize : (Stmt.declare (.builtin .int) .size (t.slot (.struct s)).size).trace? sc = some [] :=
      rfl
    have hcount := valid.count_lt
    have hnumeral : InInt32 dims.prod := ⟨by omega, by omega⟩
    have hbytes : (Expr.binary .times (.var .size) (.nat dims.prod)).int? sized.int? =
        some (int32 ((t.slot (.struct s)).width sc.machine * dims.prod)) :=
      Expr.int?_times_nat rfl hnumeral
    have hreserve : (Stmt.assign f.native (.call .allocHGlobal
        [.binary .times (.var .size) (.nat dims.prod)])).trace? sized =
        some [.reserve f.transfer type
          (int32 ((t.slot (.struct s)).width sc.machine * dims.prod))] := by
      simp [Stmt.trace?, Stmt.leafTrace?, Expr.assignTrace?, hbytes, sized, FieldView.native,
        Expr.spot?, FieldView.transfer]
    have henlist : (Stmt.run (.invoke (.var .toRelease) .add [f.native])).trace? sized =
        some [.visit [f.transfer]] := rfl
    have hnest := trace_loopNest none _ (fun _ => []) (fun idx =>
      [.visit [f.item t.layout idx],
        .assign (t.nativeItem sc.machine f (.struct s) dims (flat dims idx)) [f.item t.layout idx]])
      sized dims depth (fun depth env counters idx h => rfl) (by
        intro idx hidx depth env counters h
        simp only [nativeItem, htransfer]
        exact t.trace_storeInSlot f dims s valid rfl h hidx)
    rw [nestEvents_leaves] at hnest
    have hblock := bodyTrace_cons hsize (bodyTrace_cons hreserve (bodyTrace_cons henlist hnest))
    exact bodyTrace_single hblock

theorem trace_fromNative (hshape : f.shape = .array e.shape dims) :
    bodyTrace? (t.fromNative depth f).stmts sc =
      some (t.fromNativeEvents sc.machine f e dims (sc.present f.site.field)) := by
  rw [t.fromNative_array depth f e dims hshape valid]
  unfold fromNativeEvents
  cases htransfer : e.transfer dims with
  | inline length =>
    simp only
    unfold inlineArrayFromNative
    by_cases hcopy : (!multiDimensional dims && t.platform.copiesDirectly e) = true
    · simp only [if_pos hcopy]
      have hsingle : multiDimensional dims = false := by
        rw [Bool.and_eq_true] at hcopy
        simpa using hcopy.1
      refine bodyTrace_append (trace_freshArray f e.valueType dims sc t.layout valid ?_) ?_
      · cases t.layout <;> simp [Layout.allocatesRows, hsingle]
      · exact bodyTrace_single rfl
    · simp only [if_neg hcopy]
      refine trace_filledArray f e.valueType dims depth sc t.layout _ _ valid ?_
      intro idx hidx depth env counters h
      simp only [nativeItem, htransfer]
      exact trace_elementFromNative t e (spot_elementAt t.layout f h) (spot_flatItem f valid h hidx)
  | outOfLine length =>
    obtain ⟨rfl, s, rfl⟩ := Element.transfer_eq_outOfLine htransfer
    let type := t.transferTypeOf s.name
    let sized : Scope := { sc with slotType := some type }
    have hrows := trace_allRows f (valueTypeOf s.name) dims depth sc t.layout valid
    have hwhen : bodyTrace? [.when (isHandle f.native)
        (.declare (.builtin .int) .size (t.slot (.struct s)).size ::
          loopNest depth dims none fun indices =>
            t.loadFromSlot (.struct s) f.native (slotOffset dims indices) fun staged =>
              .assign (t.layout.elementAt f.value indices) staged)] sc =
        some (if sc.present f.site.field then
          (rowMajor dims).flatMap fun idx =>
            [.visit [t.nativeItem sc.machine f (.struct s) dims (flat dims idx)],
              .assign (f.item t.layout idx) [t.nativeItem sc.machine f (.struct s) dims (flat dims idx)]]
          else []) := by
      have hsize : (Stmt.declare (.builtin .int) .size (t.slot (.struct s)).size).trace? sc =
          some [] := rfl
      have hnest := trace_loopNest none _ (fun _ => []) (fun idx =>
        [.visit [t.nativeItem sc.machine f (.struct s) dims (flat dims idx)],
          .assign (f.item t.layout idx) [t.nativeItem sc.machine f (.struct s) dims (flat dims idx)]])
        sized dims depth (fun depth env counters idx h => rfl) (by
          intro idx hidx depth env counters h
          simp only [nativeItem, htransfer]
          exact t.trace_loadFromSlot f dims s valid rfl h hidx)
      rw [nestEvents_leaves] at hnest
      have hbody := bodyTrace_cons hsize hnest
      refine bodyTrace_single ?_
      simp only [Stmt.trace?, isHandle, FieldView.native, Scope.holds?, Option.bind_eq_bind,
        Option.bind_some]
      cases sc.present f.site.field with
      | false => rfl
      | true => exact hbody
    refine bodyTrace_append hrows ?_
    have hscope : (Stmt.assign f.value (t.layout.arrayAllocation (valueTypeOf s.name) dims) ::
        (t.layout.rows? f.value (valueTypeOf s.name) dims).elim [] (allRows depth)).foldl
          Scope.after sc = sc := by
      cases t.layout.rows? f.value (valueTypeOf s.name) dims with
      | none => rfl
      | some rows => exact after_allRows depth rows sc
    rw [hscope]
    exact hwhen

/-- The constructor. -/
theorem trace_initial (hshape : f.shape = .array e.shape dims) :
    bodyTrace? (t.initial depth f).stmts sc = some (t.initialEvents f e dims) := by
  rw [t.initial_array depth f e dims hshape valid]
  unfold initialEvents
  by_cases hinit : t.layout.needsElementInit e.shape dims = true
  · rw [if_pos hinit]
    unfold fillArray
    cases hfill : e.fill? with
    | none =>
      have hnone : e.shape.isNullByDefault = false := by
        cases e with
        | primitive kind => rfl
        | enum en => rfl
        | string kind => cases hfill
        | struct s => cases hfill
      simp only [Element.initialEvents, hnone]
      exact trace_allRows f e.valueType dims depth sc t.layout valid
    | some fill =>
      have hvalue : e.shape.isNullByDefault = true ∧ (∀ sc, fill.sources? sc = some []) ∧
          ∀ arguments, fill ≠ .call .allocHGlobal arguments := by
        cases e <;> cases hfill <;> exact ⟨rfl, fun _ => rfl, nofun⟩
      obtain ⟨hnull, hsources, hmemory⟩ := hvalue
      simp only [Element.initialEvents, hnull, if_true]
      refine trace_filledArray f e.valueType dims depth sc t.layout _ _ valid ?_
      intro idx hidx depth env counters h
      exact bodyTrace_single (trace_assign (spot_elementAt t.layout f h) (hsources _) hmemory)
  · rw [if_neg hinit]
    simp only [Layout.needsElementInit, Bool.or_eq_true, not_or, Bool.not_eq_true] at hinit
    simp only [Element.initialEvents, hinit.2]
    exact trace_freshArray f e.valueType dims sc t.layout valid hinit.1

/-- The loops of `Decode`. -/
theorem trace_decode (tag : WireTag) (htag : e.wireTag? = some tag)
    (hmulti : multiDimensional dims = true) (hshape : f.shape = .array e.shape dims) :
    bodyTrace? (t.decode depth f).stmts sc = some (t.decodeEvents f e dims) := by
  rw [t.decode_array depth f e tag dims hshape htag valid, decodeArray, if_pos hmulti]
  refine trace_filledArray f e.valueType dims depth sc t.layout _ _ valid ?_
  intro idx hidx depth env counters h
  exact bodyTrace_single (trace_assign (spot_elementAt t.layout f h) rfl nofun)

end Target

namespace Lidar

def target : Target := ⟨.jagged, .linux, "_Native"⟩

def point : StructType :=
  ⟨.ofSegments ["Lidar", "Point"], [⟨"range", .primitive .f32⟩], none⟩

/-- A struct with arrays that are filled in different ways. -/
def frame : StructType :=
  ⟨.ofSegments ["Lidar", "Frame"],
    [⟨"samples", .fixedArray (.primitive .f64) [4]⟩,
      ⟨"points", .fixedArray (.struct point) [2, 2]⟩,
      ⟨"labels", .fixedArray (.fixedArray .wideString [2]) [2, 3]⟩], none⟩

/-- The array of structs. -/
def points : FieldView := .of "Lidar::Frame" ⟨"points", .fixedArray (.struct point) [2, 2]⟩

/-- The array of three dimensions. -/
def labels : FieldView :=
  .of "Lidar::Frame" ⟨"labels", .fixedArray (.fixedArray .wideString [2]) [2, 3]⟩

theorem points_mem : points ∈ Target.views frame :=
  .tail _ (.head _)

theorem labels_mem : labels ∈ Target.views frame :=
  .tail _ (.tail _ (.head _))

end Lidar

end InteropGen

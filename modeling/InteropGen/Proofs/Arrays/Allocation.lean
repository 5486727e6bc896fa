import InteropGen.Proofs.Arrays.NativeLayout
import InteropGen.Proofs.Arrays.Soundness
import InteropGen.Proofs.Transfer.FromNative
import InteropGen.Proofs.Transfer.Initial

/-!
# The allocation of arrays

The constructor, `FromNative`, and the loops of `Decode` make an array from nothing. In the
rectangular layout that is one allocation. In the jagged layout every row is allocated by itself,
before anything reaches below it.

* `MakesArray` — what a sequence of events has to do for that; `LeavesArray` — what execution has to
  leave;
* `jaggedEvents_allocations` — the rows that are allocated, by the indices that lead to them;
* `array_allocation` — the main result.
-/

set_option autoImplicit false

namespace InteropGen

open CSharp

section
variable (f : FieldView) (element : Ty) (dims : List Nat)

/-- The allocation of the row at the given indices: its place, its type, and its length. -/
def rowAllocation (p : List Nat) : Spot × Ty × List Nat :=
  (f.item .jagged p, nestedArrays element (dims.length - p.length), [dims.getD p.length 0])

/-- Indices that lead to a row: fewer than there are dimensions, each below its own. -/
def LeadsToRow (p : List Nat) : Prop :=
  p.length < dims.length ∧ InBounds (dims.take p.length) p

/-- The array is complete after the events, whatever the property held before, and no event reaches
for a row that is not there. Every row is allocated once, with the length and the type of its
level. -/
structure AllocatesRows (events : List Event) : Prop where
  complete : ∀ previous : Rows,
    previous.run? f.site.field events = some (Rows.full element dims)
  once : ∀ p, LeadsToRow dims p →
    (events.flatMap Event.allocations).count (rowAllocation f element dims p) = 1
  only : ∀ allocation ∈ events.flatMap Event.allocations, ∃ p, LeadsToRow dims p ∧
    allocation = rowAllocation f element dims p

/-- The events make an array from nothing. -/
def MakesArray (layout : Layout) (events : List Event) : Prop :=
  match layout with
  | .rectangular =>
    events.flatMap Event.allocations = [(f.whole, .array element dims.length, dims)]
  | .jagged => AllocatesRows f element dims events

/-- Whenever the statements run to their end, on whatever machine and from whatever state, the
property has an array of arrays of the dimensions. -/
def LeavesArray (body : List Stmt) : Prop :=
  ∀ (m : Machine) (lib : Library) (env env' : Env) (st st' : State) (previous : Value),
    st.self.field? f.site.field = some previous →
    execAll m lib body env st = some (env', st') →
    ∃ items, st'.self.field? f.site.field = some (Layout.jagged.arrayValue dims items)

theorem rowAllocation_injective : Function.Injective (rowAllocation f element dims) := by
  intro p q h
  exact f.item_injective .jagged (congrArg (·.1) h)

theorem rowEvent_allocations (p : List Nat) (hp : p.length < dims.length) :
    (f.rowEvent element dims p).allocations = [rowAllocation f element dims p] := by
  have hrank : dims.length - p.length = dims.length - (p.length + 1) + 1 := by omega
  rw [FieldView.rowEvent, Event.allocations, rowAllocation, hrank]
  rfl

/-- The rows below `o` that are allocated. -/
theorem jaggedEvents_allocations (body : List Nat → List Event)
    (hbody : ∀ idx, (body idx).flatMap Event.allocations = []) (o rest : List Nat)
    (hrest : o.length + rest.length = dims.length) :
    (jaggedEvents (f.rowEvent element dims) body o rest).flatMap Event.allocations =
      (rowPrefixes rest).map fun p => rowAllocation f element dims (o ++ p) := by
  induction rest generalizing o with
  | nil => exact hbody o
  | cons d rest ih =>
    have hrow := rowEvent_allocations f element dims o (by simp at hrest; omega)
    have hitem : ∀ i, (jaggedEvents (f.rowEvent element dims) body (o ++ [i]) rest).flatMap
        Event.allocations =
        (rowPrefixes rest).map fun p => rowAllocation f element dims (o ++ i :: p) := by
      intro i
      rw [ih (o ++ [i]) (by simp at hrest ⊢; omega)]
      simp
    simp [jaggedEvents, rowPrefixes, hrow, hitem, List.flatMap_assoc, List.map_flatMap,
      Function.comp_def]

/-- Filling an array and then going through it makes the array. -/
theorem makesArray_of_fills (layout : Layout) (hne : dims ≠ []) (body : List Nat → List Event)
    (after : List Event) (hbody : ∀ idx, (body idx).flatMap Event.allocations = [])
    (hafter : after.flatMap Event.allocations = [])
    (hfill : layout = .jagged → ∀ idx around, Rows.At idx around →
      (around .leaf).run? f.site.field (body idx) = some (around .leaf))
    (hthrough : layout = .jagged →
      (Rows.full element dims).run? f.site.field after = some (Rows.full element dims)) :
    MakesArray f element dims layout (f.arrayEvents layout element dims body ++ after) := by
  cases layout with
  | rectangular =>
    have hnone : ((rowMajor dims).flatMap body).flatMap Event.allocations = [] := by
      rw [List.flatMap_assoc]
      exact List.flatMap_eq_nil_iff.mpr fun idx _ => hbody idx
    simp only [MakesArray, FieldView.arrayEvents, List.flatMap_append, List.flatMap_cons, hnone,
      hafter]
    rfl
  | jagged =>
    have hallocations : (f.arrayEvents .jagged element dims body ++ after).flatMap
        Event.allocations = (rowPrefixes dims).map (rowAllocation f element dims) := by
      rw [List.flatMap_append, hafter, List.append_nil]
      exact jaggedEvents_allocations f element dims body hbody [] dims (by simp)
    refine ⟨?_, ?_, ?_⟩
    · intro previous
      rw [Rows.run?_append,
        Rows.run?_arrayEvents f element dims body (hfill rfl) hne previous]
      exact hthrough rfl
    · intro p hp
      rw [hallocations]
      exact List.count_eq_one_of_mem
        ((rowPrefixes_nodup dims).map (rowAllocation_injective f element dims))
        (List.mem_map_of_mem (mem_rowPrefixes.mpr hp))
    · intro allocation hallocation
      rw [hallocations] at hallocation
      obtain ⟨p, hp, rfl⟩ := List.mem_map.mp hallocation
      exact ⟨p, mem_rowPrefixes.mp hp, rfl⟩

/-- Filling an array makes it. -/
theorem makesArray_of_arrayEvents (layout : Layout) (hne : dims ≠ []) (body : List Nat → List Event)
    (hbody : ∀ idx, (body idx).flatMap Event.allocations = [])
    (hfill : layout = .jagged → ∀ idx around, Rows.At idx around →
      (around .leaf).run? f.site.field (body idx) = some (around .leaf)) :
    MakesArray f element dims layout (f.arrayEvents layout element dims body) := by
  have h := makesArray_of_fills f element dims layout hne body [] hbody rfl hfill fun _ => rfl
  rwa [List.append_nil] at h

end

section
variable (t : Target) (f : FieldView) (e : Element) (dims : List Nat)

theorem within?_nativeItem (m : Machine) (position : Nat) :
    (t.nativeItem m f e dims position).within? f.site.field = none := by
  unfold Target.nativeItem
  split <;> rfl

/-- The events of filling an array do not touch the transfer struct, if those of its elements do
not. -/
theorem arrayEvents_spare (layout : Layout) (body : List Nat → List Event)
    (hbody : ∀ idx, ∀ event ∈ body idx, event.sparesTransfer = true) (element : Ty) :
    ∀ event ∈ f.arrayEvents layout element dims body, event.sparesTransfer = true := by
  have hrows : ∀ o rest, ∀ event ∈ jaggedEvents (f.rowEvent element dims) body o rest,
      event.sparesTransfer = true := by
    intro o rest
    induction rest generalizing o with
    | nil => exact hbody o
    | cons d rest ih =>
      rw [jaggedEvents, List.forall_mem_cons, List.forall_mem_flatMap]
      exact ⟨rfl, fun i _ => ih (o ++ [i])⟩
  cases layout with
  | jagged => exact hrows [] dims
  | rectangular =>
    rw [FieldView.arrayEvents, List.forall_mem_cons, List.forall_mem_flatMap]
    exact ⟨rfl, fun idx _ => hbody idx⟩

theorem initialEvents_spare :
    ∀ event ∈ t.initialEvents f e dims, event.sparesTransfer = true := by
  refine arrayEvents_spare f dims t.layout _ ?_ e.valueType
  intro idx event hevent
  unfold Element.initialEvents at hevent
  split at hevent
  · rw [List.mem_singleton.mp hevent]
    rfl
  · cases hevent

theorem decodeEvents_spare :
    ∀ event ∈ t.decodeEvents f e dims, event.sparesTransfer = true := by
  refine arrayEvents_spare f dims t.layout _ ?_ e.valueType
  intro idx event hevent
  rw [List.mem_singleton.mp hevent]
  rfl

theorem fromNativeEvents_spare (m : Machine) (present : Bool) :
    ∀ event ∈ t.fromNativeEvents m f e dims present, event.sparesTransfer = true := by
  have hrows := arrayEvents_spare f dims t.layout (fun _ => []) (by simp) e.valueType
  unfold Target.fromNativeEvents
  split
  · split
    · rw [List.forall_mem_append]
      exact ⟨hrows, by simp [Event.sparesTransfer]⟩
    · refine arrayEvents_spare f dims t.layout _ ?_ e.valueType
      intro idx
      cases e <;> simp [Element.loadEvents, Event.sparesTransfer, FieldView.item, Spot.inTransfer]
  · rw [List.forall_mem_append]
    refine ⟨hrows, ?_⟩
    split
    · rw [List.forall_mem_flatMap]
      intro idx _
      simp [Event.sparesTransfer, FieldView.item, Spot.inTransfer]
    · simp

/-- The statements leave the array that their events complete. Which handles are null is read off the
transfer struct. -/
theorem leavesArray_of_trace (element : Ty) (body : List Stmt)
    (htrace : ∀ m present, ∃ events, bodyTrace? body (.start m present) = some events ∧
      (∀ event ∈ events, event.sparesTransfer = true) ∧ AllocatesRows f element dims events) :
    LeavesArray f dims body := by
  intro m lib env env' st st' previous hprevious hexec
  have fits := Scope.fits_start m env st.wrapper
  obtain ⟨events, hevents, hspare, hrows⟩ := htrace m st.wrapper.handlePresent
  have hbefore : Rows.leaf.HeldBy f.site.field st.self := ⟨previous, hprevious, .leaf previous⟩
  have hleaves := bodyTrace_sound m lib body fits hevents hspare hbefore (hrows.complete .leaf) hexec
  obtain ⟨v, hv, hdescribes⟩ := hleaves.held
  obtain ⟨items, rfl⟩ := hdescribes.arrayValue
  exact ⟨items, hv⟩

theorem initialEvents_makesArray (hne : dims ≠ []) :
    MakesArray f e.valueType dims t.layout (t.initialEvents f e dims) := by
  refine makesArray_of_arrayEvents f e.valueType dims t.layout hne _ ?_ ?_
  · intro idx
    unfold Element.initialEvents
    split <;> rfl
  · intro hlayout idx around spot
    rw [hlayout]
    exact Rows.run?_initialEvents f spot e

theorem decodeEvents_makesArray (hne : dims ≠ []) :
    MakesArray f e.valueType dims t.layout (t.decodeEvents f e dims) := by
  refine makesArray_of_arrayEvents f e.valueType dims t.layout hne _ (fun _ => rfl) ?_
  intro hlayout idx around spot
  rw [hlayout]
  exact Rows.run?_assignItem f spot [] (by simp)

theorem fromNativeEvents_makesArray (valid : ValidDims dims) (m : Machine) (present : Bool) :
    MakesArray f e.valueType dims t.layout (t.fromNativeEvents m f e dims present) := by
  unfold Target.fromNativeEvents
  cases htransfer : e.transfer dims with
  | inline length =>
    obtain ⟨rfl, _⟩ := Element.transfer_eq_inline htransfer
    by_cases hcopy : (!multiDimensional dims && t.platform.copiesDirectly e) = true
    · obtain ⟨d, kind, rfl, rfl, _⟩ := copied_cases valid hcopy
      simp only [if_pos hcopy]
      refine makesArray_of_fills f _ [d] t.layout valid.nonempty _ _ (fun _ => rfl) rfl
        (fun _ _ _ _ => rfl) ?_
      intro _
      simp [Rows.run?, Rows.after?, Rows.holds, Rows.full, Rows.clear]
    · simp only [if_neg hcopy]
      refine makesArray_of_arrayEvents f e.valueType dims t.layout valid.nonempty _ ?_ ?_
      · intro idx
        cases e <;> rfl
      · intro hlayout idx around spot
        rw [hlayout]
        exact Rows.run?_loadEvents f spot e _ (within?_nativeItem t f e dims m _)
  | outOfLine length =>
    refine makesArray_of_fills f e.valueType dims t.layout valid.nonempty _ _ (fun _ => rfl) ?_
      (fun _ _ _ _ => rfl) ?_
    · cases present with
      | false => rfl
      | true =>
        simp only [if_true, List.flatMap_assoc]
        exact List.flatMap_eq_nil_iff.mpr fun idx _ => rfl
    · intro hlayout
      cases present with
      | false => rfl
      | true =>
        simp only [if_true]
        rw [hlayout]
        exact Rows.run?_full f e.valueType dims _ fun idx around spot =>
          Rows.run?_slotEvents f spot _ (within?_nativeItem t f e dims m _)

/-- The elements that the constructor assigns. -/
theorem initialEvents_assigns :
    (t.initialEvents f e dims).flatMap Event.assigns =
      if e.shape.isNullByDefault then (rowMajor dims).map (f.item t.layout) else [] := by
  unfold Target.initialEvents
  rw [f.arrayEvents_flatMap _ fun _ _ _ _ => rfl]
  unfold Element.initialEvents
  split
  · exact flatMap_eq_map _ _ _ fun _ => rfl
  · exact List.flatMap_eq_nil_iff.mpr fun _ _ => rfl

end

section
variable (t : Target) (f : FieldView) (e : Element) (dims : List Nat) (valid : ValidDims dims)
  (hshape : f.shape = .array e.shape dims) (m : Machine) (lib : Library)

include valid hshape

/-- The constructor gets through an array, if the objects that it puts there can be constructed. -/
theorem initial_runs (constructs : ∀ inner, e = .struct inner → Constructs m lib inner)
    {st : State} {path : String} {fields : String → Value} (hself : st.self = .record path fields) :
    ∃ st', execAll m lib (t.initial 0 f).stmts [] st = some ([], st') := by
  obtain ⟨x, hx⟩ := exec_initialArray (t := t) e constructs f dims valid 0
  rw [t.initial_array 0 f e dims hshape valid]
  refine ⟨_, hx _ (fun env => placeAt_field m lib env .value f.site.field path fields)
    (fields f.site.field) st ?_⟩
  rw [hself, Function.update_eq_self]

/-- `FromNative` gets through an array behind a null handle. -/
theorem fromNative_runs (hout : e.GoesOutOfLine dims) {st : State} {path : String}
    {fields : String → Value} (hself : st.self = .record path fields)
    (hnull : st.wrapper.field? f.site.field = some (.handle none)) :
    ∃ st', execAll m lib (t.fromNative 0 f).stmts [] st = some ([], st') := by
  rw [t.fromNative_array 0 f e dims hshape valid, e.transfer_of_goesOutOfLine hout]
  refine ⟨_, exec_readNullArray e f dims valid _
    (fun env => placeAt_field m lib env .value f.site.field path fields) (fields f.site.field) 0 st
    ?_ ?_⟩
  · intro env st' hwrapper
    simp [FieldView.native, Expr.eval, State.get, hwrapper, hnull]
  · rw [hself, Function.update_eq_self]

end

/-- In an accepted struct a property of array type is declared with the type that its layout has, and
the constructor, `FromNative` and the loops of `Decode` make the whole array, wherever in the method
they start and whether or not there is a native buffer to read. In the jagged layout the property has
an array of arrays of these dimensions once they have run, whatever it had before. The constructor
puts a value into every element that is a string or a struct, and gets through if those objects can be
constructed; `FromNative` gets through where the handle is null. -/
theorem array_allocation {t : Target} {wireCodec : Bool} {s : StructType} {code : DeclarationCode}
    (haccepted : t.structCode wireCodec s = .ok code) (f : FieldView) (hf : f ∈ Target.views s)
    (element : Shape) (dims : List Nat) (hshape : f.shape = .array element dims) :
    ∃ (e : Element) (c : ValueClass),
      element = e.shape ∧
      code.units.values = some ⟨s.name.enclosing, .valueClass c⟩ ∧
      (t.layout.arrayType e.valueType dims.length, f.site.field) ∈ c.properties ∧
      c.constructor = bodyOf (Target.views s) t.initial ∧
      c.fromNative = bodyOf (Target.views s) t.fromNative ∧
      (∀ encode decode, c.codec = some (encode, decode) →
        decode = bodyOf (Target.views s) t.decode) ∧
      (∀ sc : Scope,
        (∃ initial, bodyTrace? (t.initial 0 f).stmts sc = some initial ∧
          MakesArray f e.valueType dims t.layout initial ∧
          ((∃ kind, e = .string kind) ∨ (∃ inner, e = .struct inner) →
            initial.flatMap Event.assigns = (rowMajor dims).map (f.item t.layout) ∧
            (initial.flatMap Event.assigns).Nodup)) ∧
        (∃ reading, bodyTrace? (t.fromNative 0 f).stmts sc = some reading ∧
          MakesArray f e.valueType dims t.layout reading) ∧
        (c.codec ≠ none → multiDimensional dims = true →
          ∃ decoding, bodyTrace? (t.decode 0 f).stmts sc = some decoding ∧
            MakesArray f e.valueType dims t.layout decoding)) ∧
      (t.layout = .jagged →
        LeavesArray f dims (t.initial 0 f).stmts ∧
        LeavesArray f dims (t.fromNative 0 f).stmts ∧
        (c.codec ≠ none → multiDimensional dims = true →
          LeavesArray f dims (t.decode 0 f).stmts)) ∧
      ∀ (m : Machine) (lib : Library) (st : State) (path : String) (fields : String → Value),
        st.self = .record path fields →
        ((∀ inner, e = .struct inner → Constructs m lib inner) →
          ∃ st', execAll m lib (t.initial 0 f).stmts [] st = some ([], st')) ∧
        (e.GoesOutOfLine dims → st.wrapper.field? f.site.field = some (.handle none) →
          ∃ st', execAll m lib (t.fromNative 0 f).stmts [] st = some ([], st')) := by
  obtain ⟨⟨e, rfl⟩, valid⟩ := structCode_array haccepted f hf element dims hshape
  obtain ⟨c, notes, hclass, hunit⟩ := structCode_valueClass haccepted
  have hbodies := t.valueClass_bodies _ s _ c notes hclass
  have hproperties := t.valueClass_properties _ s _ c notes hclass
  have hproperty : t.property f =
      .ok (t.layout.arrayType e.valueType dims.length, f.site.field) := by
    rw [Target.property, hshape, t.valueType_array f.site e dims valid]
    rfl
  obtain ⟨property, hmem, hdeclared⟩ := except_mapM_mem _ _ _ hproperties f hf
  obtain rfl := Except.ok.inj (hdeclared.symm.trans hproperty)
  have hinitial := fun sc => t.trace_initial f e dims 0 sc valid hshape
  have hreading := fun sc => t.trace_fromNative f e dims 0 sc valid hshape
  have hdecoding : c.codec ≠ none → multiDimensional dims = true → ∀ sc,
      bodyTrace? (t.decode 0 f).stmts sc = some (t.decodeEvents f e dims) := by
    intro hcodec hmulti sc
    have hwire : (wireCodec && s.isDistinguished) = true := by
      rw [hbodies.codec] at hcodec
      by_contra hoff
      exact hcodec (if_neg hoff)
    have hencodable : ∀ g ∈ Target.views s, g.shape.Encodable :=
      forall_mem_views (structCode_encodable haccepted hwire)
    have hflat := hencodable f hf
    rw [hshape] at hflat
    obtain ⟨tag, htag⟩ := e.isFlat_iff.mp hflat.1
    exact t.trace_decode f e dims 0 sc valid tag htag hmulti hshape
  have hmakesInitial := initialEvents_makesArray t f e dims valid.nonempty
  have hmakesReading := fromNativeEvents_makesArray t f e dims valid
  have hmakesDecoding := decodeEvents_makesArray t f e dims valid.nonempty
  refine ⟨e, c, rfl, hunit, hmem, hbodies.constructor, hbodies.fromNative, ?_, ?_, ?_,
    fun m lib st path fields hself => ⟨fun constructs => ?_, fun hout hnull => ?_⟩⟩
  · intro encode decode hcodec
    rw [hbodies.codec] at hcodec
    split at hcodec
    · cases hcodec
      rfl
    · cases hcodec
  · intro sc
    refine ⟨⟨_, hinitial sc, hmakesInitial, ?_⟩, ⟨_, hreading sc, hmakesReading _ _⟩,
      fun hcodec hmulti => ⟨_, hdecoding hcodec hmulti sc, hmakesDecoding⟩⟩
    intro hnull
    have hassigns : (t.initialEvents f e dims).flatMap Event.assigns =
        (rowMajor dims).map (f.item t.layout) := by
      rw [initialEvents_assigns]
      rcases hnull with ⟨kind, rfl⟩ | ⟨inner, rfl⟩ <;> rfl
    rw [hassigns]
    exact ⟨rfl, (rowMajor_nodup dims).map (f.item_injective t.layout)⟩
  · intro hjagged
    rw [hjagged] at hmakesInitial hmakesReading hmakesDecoding
    refine ⟨?_, ?_, ?_⟩
    · exact leavesArray_of_trace f dims e.valueType _ fun m present =>
        ⟨_, hinitial _, initialEvents_spare t f e dims, hmakesInitial⟩
    · exact leavesArray_of_trace f dims e.valueType _ fun m present =>
        ⟨_, hreading _, fromNativeEvents_spare t f e dims _ _, hmakesReading _ _⟩
    · exact fun hcodec hmulti => leavesArray_of_trace f dims e.valueType _ fun m present =>
        ⟨_, hdecoding hcodec hmulti _, decodeEvents_spare t f e dims, hmakesDecoding⟩
  · exact initial_runs t f e dims valid hshape m lib constructs hself
  · exact fromNative_runs t f e dims valid hshape m lib hout hself hnull

theorem labels_allocation :
    ∃ code, Lidar.target.structCode false Lidar.frame = .ok code ∧
      Lidar.labels ∈ Target.views Lidar.frame ∧
      Lidar.labels.shape = .array (.string .wide) [2, 3, 2] ∧
      ∃ c initial reading, code.units.values = some ⟨some "Lidar", .valueClass c⟩ ∧
        (Ty.array (.array (.array .string 1) 1) 1, "labels") ∈ c.properties ∧
        bodyTrace? (Lidar.target.initial 0 Lidar.labels).stmts
          (.start Radar.machine fun _ => false) = some initial ∧
        (∀ previous : Rows, previous.run? "labels" initial =
          some (Rows.full .string [2, 3, 2])) ∧
        (initial.flatMap Event.allocations).count
          (Spot.element .value "labels" [[1], [2]], Ty.array .string 1, [2]) = 1 ∧
        initial.flatMap Event.assigns = ((rowMajor [2, 3, 2]).map fun idx =>
          .element .value "labels" (idx.map ([·]))) ∧
        bodyTrace? (Lidar.target.fromNative 0 Lidar.labels).stmts
          (.start Radar.machine fun _ => false) = some reading ∧
        (∀ previous : Rows, previous.run? "labels" reading =
          some (Rows.full .string [2, 3, 2])) ∧
        LeavesArray Lidar.labels [2, 3, 2] (Lidar.target.initial 0 Lidar.labels).stmts ∧
        ∀ (m : Machine) (lib : Library) (st : State) (path : String) (fields : String → Value),
          st.self = .record path fields →
          ∃ st', execAll m lib (Lidar.target.initial 0 Lidar.labels).stmts [] st =
            some ([], st') := by
  have hcode : ∃ code, Lidar.target.structCode false Lidar.frame = .ok code := ⟨_, rfl⟩
  obtain ⟨code, hcode⟩ := hcode
  obtain ⟨e, c, hshape, hunit, hproperty, _, _, _, htraces, hleaves, hruns⟩ :=
    array_allocation hcode Lidar.labels Lidar.labels_mem (.string .wide) [2, 3, 2] rfl
  obtain rfl : e = .string .wide := by
    cases e <;> cases hshape
    rfl
  obtain ⟨⟨initial, hinitial, hmakes, hassigns⟩, ⟨reading, hreading, hfills⟩, _⟩ :=
    htraces (.start Radar.machine fun _ => false)
  have hrow : LeadsToRow [2, 3, 2] [1, 2] :=
    ⟨by decide, inBounds_cons.mpr ⟨by decide, inBounds_cons.mpr ⟨by decide, .nil⟩⟩⟩
  exact ⟨code, hcode, Lidar.labels_mem, rfl, c, initial, reading, hunit, hproperty, hinitial,
    hmakes.complete, hmakes.once [1, 2] hrow, (hassigns (.inl ⟨_, rfl⟩)).1, hreading,
    hfills.complete, (hleaves rfl).1,
    fun m lib st path fields hself => (hruns m lib st path fields hself).1 nofun⟩

end InteropGen

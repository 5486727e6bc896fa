import InteropGen.Proofs.Transfer.Hosts
import InteropGen.Proofs.Transfer.Objects
import InteropGen.Proofs.Transfer.Room

/-!
# The round trip through native memory

What `ToNative` leaves in a transfer struct and in native memory, `FromNative` turns back into the
same value, on every layout and platform and for every struct that is accepted together with the
structs nested in it.

* The value is well formed (`WellFormed`): no string, list or object in it is null, a list is no
  longer than its bound, narrow characters are single bytes, there are no long doubles, and counts fit
  32 bits.
* The sizes of buffers are computed in 32 bits as well, and `ToNative` comes to its end exactly for
  the values whose sizes fit there (`Sized`). A list of `2 ^ 28` doubles is well formed, and its size
  does not fit.
* Nothing is assumed of the object that the value is read into, and nothing of the transfer struct
  but that structs nested in it are there.
-/

set_option autoImplicit false

namespace InteropGen

open CSharp

variable {m : Machine} {t : Target}

/-- A value that fits is converted, and no other is. Converting a value and reading it back into an
object, a new one or any other, gives the value. Reading changes nothing else. -/
theorem transfer_round_trip (wireCodec : Bool) (s : StructType)
    (compiled : Compiled m t wireCodec s) (depth : Nat) (hdepth : s.nesting ≤ depth) (st : State)
    (wellFormed : WellFormed t.layout (.struct s) st.self)
    (storage : Storage t (.struct s) st.wrapper) :
    ((∃ native, (m.library depth).call s.name.dotted .toNative st = some native) ↔
      Sized m t (.struct s) st.self) ∧
    ∀ native, (m.library depth).call s.name.dotted .toNative st = some native →
      native.self = st.self ∧
      (∃ object, IsObject s object ∧
        m.construct? (m.library depth) (valueTypeOf s.name) [] native = some (object, native)) ∧
      ∀ object, IsObject s object →
        (m.library depth).call s.name.dotted .fromNative { native with self := object } =
          some { native with self := st.self } := by
  have hconverts := converts wireCodec depth s hdepth compiled
  have hreads := reads wireCodec depth s hdepth compiled
  have hroom : ∀ native, (m.library depth).call s.name.dotted .toNative st = some native →
      Sized m t (.struct s) st.self := fun native hcall =>
    findsRoom wireCodec depth s hdepth compiled st.self st.wrapper st native wellFormed storage rfl rfl
      hcall
  refine ⟨⟨fun ⟨native, hcall⟩ => hroom native hcall, fun sized => ?_⟩, fun native hcall => ?_⟩
  · obtain ⟨_, native, hcall, _⟩ := hconverts.toNative true st.self st.wrapper st
      (typed_iff.mpr ⟨wellFormed, sized⟩) storage rfl rfl
    exact ⟨native, hcall⟩
  · have typed : Typed m t true (.struct s) st.self :=
      typed_iff.mpr ⟨wellFormed, hroom native hcall⟩
    obtain ⟨w, _, hconverted, hself, hwrapper, _, hrep⟩ :=
      hconverts.toNative true st.self st.wrapper st typed storage rfl rfl
    cases hconverted.symm.trans hcall
    obtain ⟨object, hobject, hconstruct⟩ := hreads.construct
    refine ⟨hself, ⟨object, hobject, hconstruct native⟩, fun object hobject => ?_⟩
    exact hreads.fromNative object st.self w _ _ { native with self := object } hobject typed hrep rfl
      hwrapper

theorem scan_round_trip :
    Compiled Radar.machine Radar.target false Radar.scan ∧ Radar.scan.nesting ≤ 2 ∧
      WellFormed .jagged (.struct Radar.scan) Radar.before.self ∧
      Storage Radar.target (.struct Radar.scan) Radar.before.wrapper ∧
      Sized Radar.machine Radar.target (.struct Radar.scan) Radar.before.self ∧
      ∃ native, (Radar.machine.library 2).call "Radar.Scan" .toNative Radar.before = some native ∧
        native.self = Radar.scanValue ∧
        (∃ object, IsObject Radar.scan object ∧
          Radar.machine.construct? (Radar.machine.library 2) (.named "Radar.Scan") [] native =
            some (object, native)) ∧
        ∀ object, IsObject Radar.scan object →
          (Radar.machine.library 2).call "Radar.Scan" .fromNative { native with self := object } =
            some { native with self := Radar.scanValue } := by
  obtain ⟨wellFormed, sized⟩ := typed_iff.mp (Radar.scanValue_typed true)
  obtain ⟨hcompletes, hback⟩ := transfer_round_trip false Radar.scan Radar.compiled 2 (by decide)
    Radar.before wellFormed Radar.before_storage
  obtain ⟨native, hcall⟩ := hcompletes.mpr sized
  exact ⟨Radar.compiled, by decide, wellFormed, Radar.before_storage, sized, native, hcall,
    hback native hcall⟩

namespace Recorder

def target : Target := ⟨.jagged, .linux, "_Native"⟩

def flight : StructType :=
  ⟨.ofSegments ["Recorder", "Flight"], [⟨"samples", .sequence (.primitive .f64) 0⟩], none⟩

def family : Family := ⟨[flight], []⟩

theorem compiles : family.Compiles target false where
  accepted := by
    simp only [family, List.forall_mem_cons]
    exact ⟨⟨_, rfl⟩, by simp⟩
  structs := by
    simp only [family, List.forall_mem_cons]
    simp [flight, TypeNode.shape, Shape.structs]
  enums := by
    simp only [family, List.forall_mem_cons]
    simp [flight, TypeNode.shape, Shape.enums]
  paths := by decide
  distinct := by
    simp only [family, List.forall_mem_cons]
    exact ⟨by decide, by simp⟩
  bounds := by
    simp only [family, List.forall_mem_cons]
    simp [flight, TypeNode.shape]

def machine : Machine :=
  { Radar.machine with decls := family.decls target false }

theorem compiled : Compiled machine target false flight :=
  family.compiled compiles rfl flight (by simp [family])

/-- As many doubles as do not fit with their count. -/
def length : Nat := 268435456

/-- Before a flight of that many samples is converted. -/
def before : State where
  self := .record "Recorder.Flight" fun
    | "samples" => .list (List.replicate length (.double 0))
    | _ => .null
  wrapper := .record "Recorder.Flight_Native" fun _ => .null
  released := []
  memory := ⟨fun _ => none, 0, []⟩
  wire := []

theorem before_wellFormed : WellFormed .jagged (.struct flight) before.self := by
  refine .struct flight _ ?_ ?_
  · simp only [flight, List.forall_mem_cons]
    refine ⟨.list (.primitive .f64) 0 _ ?_ (.inl rfl) ?_, by simp⟩
    · intro v hv
      obtain ⟨_, rfl⟩ := List.mem_replicate.mp hv
      exact .primitive .f64 _ (.double 0) ⟨by simp, by simp⟩
    · rw [List.length_replicate]
      decide
  · intro name hname
    simp only [flight, List.map_cons, List.map_nil, List.mem_cons, List.not_mem_nil, or_false]
      at hname
    simp

theorem before_storage : Storage target (.struct flight) before.wrapper := by
  refine .struct flight _ ?_
  simp only [flight, List.forall_mem_cons]
  exact ⟨.other _ _ (by simp [TypeNode.shape]), by simp⟩

theorem before_not_sized : ¬ Sized machine target (.struct flight) before.self := by
  intro sized
  cases sized with
  | struct _ _ _ hfields =>
    have hsamples : Sized machine target (.sequence (Element.primitive .f64).shape 0)
        (.list (List.replicate length (.double 0))) :=
      hfields ⟨"samples", .sequence (.primitive .f64) 0⟩ (by simp [flight])
    have hbytes := hsamples.sequence_cases.1
    have hwidth : (target.slot (.primitive .f64)).width machine = 8 := rfl
    rw [cutTo_eq_self (.inl rfl), List.length_replicate, hwidth] at hbytes
    unfold length at hbytes
    omega

end Recorder

/-- The code is accepted and the value is well formed, but the product of its count and the size of
a slot wraps around, and the conversion does not come to its end. -/
theorem flight_has_no_round_trip :
    Compiled Recorder.machine Recorder.target false Recorder.flight ∧
      WellFormed .jagged (.struct Recorder.flight) Recorder.before.self ∧
      Storage Recorder.target (.struct Recorder.flight) Recorder.before.wrapper ∧
      ∀ depth, Recorder.flight.nesting ≤ depth →
        (Recorder.machine.library depth).call "Recorder.Flight" .toNative Recorder.before = none := by
  refine ⟨Recorder.compiled, Recorder.before_wellFormed, Recorder.before_storage, ?_⟩
  intro depth hdepth
  by_contra hcall
  obtain ⟨native, hcall⟩ := Option.ne_none_iff_exists'.mp hcall
  exact Recorder.before_not_sized
    (findsRoom false depth Recorder.flight hdepth Recorder.compiled _ _ Recorder.before native
      Recorder.before_wellFormed Recorder.before_storage rfl rfl hcall)

end InteropGen

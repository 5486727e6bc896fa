import InteropGen.Proofs.Recorded
import InteropGen.Proofs.Transfer.Hosts
import InteropGen.Proofs.Transfer.Release
import InteropGen.Proofs.Transfer.Structs

/-!
# The balance of allocations

Generated code gives back what it allocates. In the code, every allocation is entered in the release
list by the next statement, and nothing but the start of a release frees anything (`Balanced`). In
execution, a conversion and the release after it free each block that was allocated once, and no
other, whatever the value is: null strings and lists, lists above their bound, any nesting. The bytes
of each buffer have to be a number of 32 bits, which `Typed` says of a value; the conversion of a value
that is too large throws, or stores outside of a block.
-/

set_option autoImplicit false

namespace InteropGen

open CSharp

/-- The discipline of a value class. -/
structure Balanced (c : ValueClass) : Prop where
  toNative : Recorded c.toNative
  constructor : bodyQuiet c.constructor = true
  fromNative : bodyQuiet c.fromNative = true
  codec : ∀ encode decode, c.codec = some (encode, decode) →
    bodyQuiet encode = true ∧ bodyQuiet decode = true
  /-- The list is freed and cleared before anything else is released. -/
  releaseNative : ∃ resets, c.releaseNative = freeReleased ++ resets ∧ bodyQuiet resets = true

section
variable {m : Machine} {t : Target} {wireCodec : Bool}

/-- The class of an accepted struct keeps the discipline. -/
theorem balanced_of_accepted {s : StructType} {code : DeclarationCode}
    (h : t.structCode wireCodec s = .ok code) :
    ∃ c, code.units.values = some ⟨s.name.enclosing, .valueClass c⟩ ∧ Balanced c := by
  obtain ⟨c, transfers, bodies, _, hunits⟩ := structCode_cases h
  have htransferable : ∀ f ∈ Target.views s, f.shape.Transferable t.layout :=
    forall_mem_views (structCode_transferable h)
  refine ⟨c, by rw [hunits], ?_, ?_, ?_, ?_, ?_⟩
  · rw [bodies.toNative]
    exact Recorded.flatMap _ _ fun f hf => t.toNative_recorded 0 f (htransferable f hf)
  · rw [bodies.constructor]
    exact bodyQuiet_flatMap _ _ fun f hf => t.initial_quiet 0 f (htransferable f hf)
  · rw [bodies.fromNative]
    exact bodyQuiet_flatMap _ _ fun f hf => t.fromNative_quiet 0 f (htransferable f hf)
  · intro encode decode hcodec
    rw [bodies.codec] at hcodec
    by_cases hmessage : (wireCodec && s.isDistinguished) = true
    · rw [if_pos hmessage] at hcodec
      cases hcodec
      have hencodable : ∀ f ∈ Target.views s, f.shape.Encodable :=
        forall_mem_views (structCode_encodable h hmessage)
      exact ⟨bodyQuiet_flatMap _ _ fun f hf => t.encode_quiet 0 f (hencodable f hf),
        bodyQuiet_flatMap _ _ fun f hf => t.decode_quiet 0 f (hencodable f hf)⟩
    · rw [if_neg hmessage] at hcodec
      cases hcodec
  · exact ⟨_, bodies.releaseNative,
      bodyQuiet_flatMap _ _ fun f hf => Target.releaseNative_quiet t 0 f (htransferable f hf)⟩

/-- The release list holds the handles of blocks that are there, each once. -/
structure Pending (st : State) (blocks : List Nat) : Prop where
  released : st.released = blocks.map fun b => some ⟨b, 0⟩
  distinct : blocks.Nodup
  old : ∀ b ∈ blocks, b < st.memory.next
  live : ∀ b ∈ blocks, (st.memory.blocks b).isSome

/-- A conversion adds the blocks that it allocates, and those differ from all before. -/
theorem Pending.marshals {st st' : State} {blocks : List Nat} (h : Pending st blocks)
    (hmarshals : Marshals st st') :
    Pending st' (blocks ++ List.range' st.memory.next (st'.memory.next - st.memory.next)) := by
  have hle := hmarshals.memory.next_le
  have hnew : ∀ b ∈ List.range' st.memory.next (st'.memory.next - st.memory.next),
      st.memory.next ≤ b ∧ b < st'.memory.next := by
    intro b hb
    rw [List.mem_range'_1] at hb
    omega
  refine ⟨?_, ?_, ?_, ?_⟩
  · rw [hmarshals.released, h.released, handles, List.map_append]
  · refine h.distinct.append List.nodup_range' fun b hold hlate => ?_
    exact absurd (h.old b hold) (Nat.not_lt.mpr (hnew b hlate).1)
  · intro b hb
    rcases List.mem_append.mp hb with hold | hlate
    · exact Nat.lt_of_lt_of_le (h.old b hold) hle
    · exact (hnew b hlate).2
  · intro b hb
    rcases List.mem_append.mp hb with hold | hlate
    · rw [hmarshals.memory.same b (Nat.zero_le b) (h.old b hold)]
      exact h.live b hold
    · exact hmarshals.memory.live b (hnew b hlate).1 (hnew b hlate).2

/-- Converting a value and releasing it, whatever the list holds before. The blocks that the
conversion allocates are those with the numbers from `st.memory.next` on. -/
theorem exec_release_converted (s : StructType) (compiled : Compiled m t wireCodec s) (depth : Nat)
    (hdepth : s.nesting ≤ depth) (st : State) (typed : Typed m t false (.struct s) st.self)
    (storage : Storage t (.struct s) st.wrapper) (blocks : List Nat) (pending : Pending st blocks) :
    ∃ native after, (m.library depth).call s.name.dotted .toNative st = some native ∧
      (m.library depth).call s.name.dotted .releaseNative native = some after ∧
      Marshals st native ∧
      Represents m t native.memory st.memory.next native.memory.next (.struct s) st.self
        native.wrapper ∧
      Resets (.struct s) native.wrapper after.wrapper ∧ after.released = [] ∧
      after.memory = native.memory.freeAll
        (blocks ++ List.range' st.memory.next (native.memory.next - st.memory.next)) := by
  obtain ⟨w, native, hcall, _, hwrapper, hmarshals, hrep⟩ :=
    (converts wireCodec depth s hdepth compiled).toNative false st.self st.wrapper st typed storage
      rfl rfl
  have hpending := pending.marshals hmarshals
  cases depth with
  | zero =>
    rw [nesting_eq] at hdepth
    omega
  | succ depth =>
    rw [← hwrapper] at hrep
    obtain ⟨w', hresets, hrelease⟩ := call_releaseNative wireCodec depth s compiled (by
      intro f hf inner hinner
      have hlt := nesting_lt s inner f hf hinner
      exact releases wireCodec depth inner (by omega) (compiled.field f hf hinner))
      native.memory _ _ st.self native hrep _ hpending.distinct hpending.released hpending.live
    exact ⟨native, _, hcall, hrelease, hmarshals, hrep, hresets, rfl, rfl⟩

/-- The same with a list that starts empty. -/
theorem exec_convert_release (s : StructType) (compiled : Compiled m t wireCodec s) (depth : Nat)
    (hdepth : s.nesting ≤ depth) (st : State) (typed : Typed m t false (.struct s) st.self)
    (storage : Storage t (.struct s) st.wrapper) (hempty : st.released = []) :
    ∃ native after, (m.library depth).call s.name.dotted .toNative st = some native ∧
      (m.library depth).call s.name.dotted .releaseNative native = some after ∧
      native.released = handles st.memory.next native.memory.next ∧
      native.memory.freed = st.memory.freed ∧ after.released = [] ∧
      after.memory = native.memory.freeAll
        (List.range' st.memory.next (native.memory.next - st.memory.next)) := by
  obtain ⟨native, after, hcall, hrelease, hmarshals, _, _, hclear, hmemory⟩ :=
    exec_release_converted s compiled depth hdepth st typed storage []
      ⟨hempty, .nil, by simp, by simp⟩
  have hreleased : native.released = handles st.memory.next native.memory.next := by
    rw [hmarshals.released, hempty, List.nil_append]
  exact ⟨native, after, hcall, hrelease, hreleased, hmarshals.memory.freed, hclear, hmemory⟩

end

/-- Generated code is balanced, as code and in execution. Executed are the conversions of values whose
buffers have sizes that fit 32 bits (`hfits` of `Typed.array` and `Typed.list`). -/
theorem resource_balance (t : Target) (wireCodec : Bool) (s : StructType) :
    (∀ code, t.structCode wireCodec s = .ok code →
      ∃ c, code.units.values = some ⟨s.name.enclosing, .valueClass c⟩ ∧ Balanced c) ∧
    ∀ (m : Machine) (depth : Nat) (st : State), Compiled m t wireCodec s → s.nesting ≤ depth →
      Typed m t false (.struct s) st.self → Storage t (.struct s) st.wrapper → st.released = [] →
      ∃ native after, (m.library depth).call s.name.dotted .toNative st = some native ∧
        (m.library depth).call s.name.dotted .releaseNative native = some after ∧
        native.released = handles st.memory.next native.memory.next ∧
        after.memory.freed = st.memory.freed ++
          List.range' st.memory.next (native.memory.next - st.memory.next) ∧
        after.memory.next = native.memory.next ∧
        (∀ b, st.memory.next ≤ b → b < native.memory.next → after.memory.blocks b = none) ∧
        after.released = [] := by
  refine ⟨fun code hcode => balanced_of_accepted hcode, ?_⟩
  intro m depth st compiled hdepth typed storage hempty
  obtain ⟨native, after, hcall, hrelease, hreleased, hfreed, hclear, hmemory⟩ :=
    exec_convert_release s compiled depth hdepth st typed storage hempty
  refine ⟨native, after, hcall, hrelease, hreleased, ?_, ?_, ?_, hclear⟩
  · rw [hmemory, Memory.freeAll, hfreed]
  · rw [hmemory, Memory.freeAll]
  · intro b hlo hhi
    have hmem : b ∈ List.range' st.memory.next (native.memory.next - st.memory.next) := by
      rw [List.mem_range'_1]
      omega
    rw [hmemory]
    simp only [Memory.freeAll, if_pos hmem]

theorem scan_balance :
    (∃ code, Radar.target.structCode false Radar.scan = .ok code ∧
      ∃ c, code.units.values = some ⟨Radar.scan.name.enclosing, .valueClass c⟩ ∧ Balanced c) ∧
    Compiled Radar.machine Radar.target false Radar.scan ∧ Radar.scan.nesting ≤ 2 ∧
    Typed Radar.machine Radar.target false (.struct Radar.scan) Radar.before.self ∧
    Storage Radar.target (.struct Radar.scan) Radar.before.wrapper ∧ Radar.before.released = [] ∧
    ∃ native after, (Radar.machine.library 2).call "Radar.Scan" .toNative Radar.before = some native ∧
      (Radar.machine.library 2).call "Radar.Scan" .releaseNative native = some after ∧
      native.released = handles 0 native.memory.next ∧
      after.memory.freed = [] ++ List.range' 0 (native.memory.next - 0) ∧
      after.memory.next = native.memory.next ∧
      (∀ b, 0 ≤ b → b < native.memory.next → after.memory.blocks b = none) ∧
      after.released = [] := by
  obtain ⟨code, hcode⟩ := Radar.compiles.accepted Radar.scan (by simp [Radar.family])
  have hbalance := resource_balance Radar.target false Radar.scan
  exact ⟨⟨code, hcode, hbalance.1 code hcode⟩, Radar.compiled, by decide,
    Radar.scanValue_typed false, Radar.before_storage, rfl,
    hbalance.2 Radar.machine 2 Radar.before Radar.compiled (by decide)
      (Radar.scanValue_typed false) Radar.before_storage rfl⟩

end InteropGen

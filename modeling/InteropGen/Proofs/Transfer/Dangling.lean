import InteropGen.Proofs.Transfer.Balance

/-!
# No handle is left dangling

A conversion puts the handle of a block that it allocated at every place for one in the transfer
struct, and the release that frees these blocks leaves the null handle at every such place. At all
other places it changes nothing. Values may have null strings and lists in them and lists above their
bound, but the bytes of each buffer are a number of 32 bits (`Typed`).
-/

set_option autoImplicit false

namespace InteropGen

open CSharp

/-- After a value was converted and released, every place that held the handle of an allocated block
holds the null handle. The places of scalars hold no handles, and neither they nor any other place
that has no handle in it is changed. The value is one whose buffers have sizes that fit 32 bits
(`hfits` of `Typed.array` and `Typed.list`). -/
theorem release_leaves_no_handle (m : Machine) (t : Target) (wireCodec : Bool) (s : StructType)
    (compiled : Compiled m t wireCodec s) (depth : Nat) (hdepth : s.nesting ≤ depth) (st : State)
    (typed : Typed m t false (.struct s) st.self) (storage : Storage t (.struct s) st.wrapper)
    (blocks : List Nat) (pending : Pending st blocks) :
    ∃ native after, (m.library depth).call s.name.dotted .toNative st = some native ∧
      (m.library depth).call s.name.dotted .releaseNative native = some after ∧
      (∀ path, LeafAt .handle (.struct s) path →
        (∃ b, st.memory.next ≤ b ∧ b < native.memory.next ∧
          native.wrapper.place? path = some (.handle (some ⟨b, 0⟩))) ∧
        after.wrapper.place? path = some (.handle none)) ∧
      (∀ path, LeafAt .scalar (.struct s) path → ∃ x, (∀ a, x ≠ .handle a) ∧
        native.wrapper.place? path = some x ∧ after.wrapper.place? path = some x) ∧
      ∀ path, (∀ inner, LeafAt .handle (.struct s) inner → ¬ path <+: inner) →
        after.wrapper.place? path = native.wrapper.place? path := by
  obtain ⟨native, after, hcall, hrelease, _, hrep, hresets, _, _⟩ :=
    exec_release_converted s compiled depth hdepth st typed storage blocks pending
  refine ⟨native, after, hcall, hrelease, ?_, ?_, hresets.frame⟩
  · intro path leaf
    exact ⟨hrep.handle_leaf leaf, hresets.handle leaf⟩
  · intro path leaf
    obtain ⟨x, hplace, hx⟩ := hrep.scalar_leaf typed leaf
    exact ⟨x, hx, hplace, (hresets.scalar leaf).trans hplace⟩

namespace Quay

def target : Target := ⟨.rectangular, .windows, "_Native"⟩

def tag : StructType :=
  ⟨.ofSegments ["Quay", "Tag"], [⟨"text", .wideString⟩], none⟩

/-- Handles of every kind: in fields, in inline arrays and in structs nested by value. -/
def berth : StructType :=
  ⟨.ofSegments ["Quay", "Berth"],
    [⟨"name", .narrowString⟩, ⟨"flags", .fixedArray .narrowString [2, 1]⟩, ⟨"tag", .struct tag⟩,
      ⟨"tags", .fixedArray (.struct tag) [2]⟩, ⟨"grid", .fixedArray (.struct tag) [2, 2]⟩,
      ⟨"queue", .sequence (.struct tag) 3⟩, ⟨"draught", .primitive .i32⟩], none⟩

def family : Family := ⟨[tag, berth], []⟩

theorem compiles : family.Compiles target false where
  accepted := by
    simp only [family, List.forall_mem_cons]
    exact ⟨⟨_, rfl⟩, ⟨_, rfl⟩, by simp⟩
  structs := by
    simp only [family, List.forall_mem_cons]
    simp [tag, berth, TypeNode.shape, Shape.structs, Shape.arrayOf]
  enums := by
    simp only [family, List.forall_mem_cons]
    simp [tag, berth, TypeNode.shape, Shape.enums, Shape.arrayOf]
  paths := by decide
  distinct := by
    simp only [family, List.forall_mem_cons]
    exact ⟨by decide, by decide, by simp⟩
  bounds := by
    simp only [family, List.forall_mem_cons]
    simp [tag, berth, TypeNode.shape, Shape.arrayOf]

/-- A machine with the code of the family. -/
def machine : Machine :=
  { Radar.machine with decls := family.decls target false }

theorem compiled : Compiled machine target false berth :=
  family.compiled compiles rfl berth (by simp [family])

def tagValue : Value :=
  .record "Quay.Tag" fun
    | "text" => .text [65]
    | _ => .null

def berthValue : Value :=
  .record "Quay.Berth" fun
    | "name" => .text [66]
    | "flags" => Layout.rectangular.arrayValue [2, 1] fun _ => .null
    | "tag" => tagValue
    | "tags" => Layout.rectangular.arrayValue [2] fun _ => tagValue
    | "grid" => Layout.rectangular.arrayValue [2, 2] fun _ => tagValue
    | "queue" => .list [tagValue]
    | "draught" => .int 12
    | _ => .null

theorem tagValue_typed : Typed machine target false (.struct tag) tagValue := by
  refine .struct tag _ ?_ ?_
  · simp only [tag, List.forall_mem_cons]
    exact ⟨.text .wide _, by simp⟩
  · intro name hname
    simp only [tag, List.map_cons, List.map_nil, List.mem_cons, List.not_mem_nil, or_false] at hname
    simp

theorem berthValue_typed : Typed machine target false (.struct berth) berthValue := by
  have hflags : Typed machine target false (.array (.string .narrow) [2, 1])
      (Layout.rectangular.arrayValue [2, 1] fun _ => .null) :=
    .array (.string .narrow) [2, 1] _ ⟨by simp, by simp, by decide⟩ nofun fun _ _ =>
      .nullText .narrow rfl
  have htags : Typed machine target false (.array (.struct tag) [2])
      (Layout.rectangular.arrayValue [2] fun _ => tagValue) :=
    .array (.struct tag) [2] _ ⟨by simp, by simp, by decide⟩ nofun fun _ _ => tagValue_typed
  have hgrid : Typed machine target false (.array (.struct tag) [2, 2])
      (Layout.rectangular.arrayValue [2, 2] fun _ => tagValue) := by
    refine .array (.struct tag) [2, 2] _ ⟨by simp, by simp, by decide⟩ ?_ fun _ _ => tagValue_typed
    intro length h
    cases h
    decide
  have hqueue : Typed machine target false (.sequence (.struct tag) 3) (.list [tagValue]) := by
    refine .list (.struct tag) 3 _ ?_ nofun (by decide) (by decide)
    intro v hv
    rw [List.mem_singleton.mp hv]
    exact tagValue_typed
  refine .struct berth _ ?_ ?_
  · simp only [berth, List.forall_mem_cons]
    exact ⟨.text .narrow _, hflags, tagValue_typed, htags, hgrid, hqueue,
      .primitive .i32 _ (.integer .int _ _ 12 rfl (by decide) (by decide)) nofun, by simp⟩
  · intro name hname
    simp only [berth, List.map_cons, List.map_nil, List.mem_cons, List.not_mem_nil, or_false,
      not_or] at hname
    simp [hname]

/-- Before a berth is converted. Another value has been already, and its block is in the list. -/
def before : State where
  self := berthValue
  wrapper := .record "Quay.Berth_Native" fun
    | "tag" => .record "Quay.Tag_Native" fun _ => .null
    | _ => .null
  released := [some ⟨0, 0⟩]
  memory := ⟨fun b => if b = 0 then some (.text .utf16 [67]) else none, 1, []⟩
  wire := []

theorem before_storage : Storage target (.struct berth) before.wrapper := by
  have htag : Storage target (.struct tag) (.record "Quay.Tag_Native" fun _ => .null) := by
    refine .struct tag _ ?_
    simp only [tag, List.forall_mem_cons]
    exact ⟨.other _ _ (by simp [TypeNode.shape]), by simp⟩
  refine .struct berth _ ?_
  simp only [berth, List.forall_mem_cons]
  exact ⟨.other _ _ (by simp [TypeNode.shape]), .other _ _ (by simp [TypeNode.shape, Shape.arrayOf]),
    htag, .other _ _ (by simp [TypeNode.shape, Shape.arrayOf]),
    .other _ _ (by simp [TypeNode.shape, Shape.arrayOf]), .other _ _ (by simp [TypeNode.shape]),
    .other _ _ (by simp [TypeNode.shape]), by simp⟩

/-- The text of the second of its tags. -/
theorem tags_leaf :
    LeafAt .handle (.struct berth) [.field "tags", .item 1, .field "text"] :=
  .struct berth ⟨"tags", .fixedArray (.struct tag) [2]⟩ _ (by simp [berth])
    (.inline (.struct tag) [2] 2 1 _ rfl (by decide)
      (.struct tag ⟨"text", .wideString⟩ _ (by simp [tag]) (.string .wide rfl)))

theorem before_pending : Pending before [0] :=
  ⟨rfl, List.nodup_singleton 0, by simp [before], by simp [before]⟩

end Quay

theorem berth_leaves_no_handle :
    Compiled Quay.machine Quay.target false Quay.berth ∧ Quay.berth.nesting ≤ 2 ∧
      Typed Quay.machine Quay.target false (.struct Quay.berth) Quay.before.self ∧
      Storage Quay.target (.struct Quay.berth) Quay.before.wrapper ∧ Pending Quay.before [0] ∧
      LeafAt .handle (.struct Quay.berth) [.field "tags", .item 1, .field "text"] ∧
      ∃ native after,
        (Quay.machine.library 2).call "Quay.Berth" .toNative Quay.before = some native ∧
        (Quay.machine.library 2).call "Quay.Berth" .releaseNative native = some after ∧
        (∀ path, LeafAt .handle (.struct Quay.berth) path →
          (∃ b, 1 ≤ b ∧ b < native.memory.next ∧
            native.wrapper.place? path = some (.handle (some ⟨b, 0⟩))) ∧
          after.wrapper.place? path = some (.handle none)) ∧
        (∀ path, LeafAt .scalar (.struct Quay.berth) path → ∃ x, (∀ a, x ≠ .handle a) ∧
          native.wrapper.place? path = some x ∧ after.wrapper.place? path = some x) ∧
        ∀ path, (∀ inner, LeafAt .handle (.struct Quay.berth) inner → ¬ path <+: inner) →
          after.wrapper.place? path = native.wrapper.place? path :=
  ⟨Quay.compiled, by decide, Quay.berthValue_typed, Quay.before_storage, Quay.before_pending,
    Quay.tags_leaf,
    release_leaves_no_handle Quay.machine Quay.target false Quay.berth Quay.compiled 2 (by decide)
      Quay.before Quay.berthValue_typed Quay.before_storage [0] Quay.before_pending⟩

end InteropGen

import InteropGen.Proofs.Sequences.Buffers
import InteropGen.Proofs.Transfer.FromNative
import InteropGen.Proofs.Transfer.ToNative

/-!
# Accesses and runs

The accesses of a sequence are those of its runs: where a run of `ToNative` has a result, native
memory holds a cell of the right width for every store, and `FromNative` reads those cells and gives
the list as many items as its accesses append.

* `Represents.holdsAt` — the cells of a block;
* `exec_sequence_stores`, `exec_readSequence_loads` — the runs of the two conversions.
-/

set_option autoImplicit false

namespace InteropGen

open CSharp

section
variable {m : Machine} {t : Target} {lib : Library}

/-- The length of a list, which may be null. -/
def itemCount : Value → Option Nat
  | .list items => some items.length
  | _ => none

theorem copied_itemCount {v : Value} {items : List Value}
    (hv : v = .list items ∨ v = .null ∧ items = []) (maxBound : Nat) :
    copied maxBound (itemCount v) = cutTo maxBound items.length := by
  rcases hv with rfl | ⟨rfl, rfl⟩
  · rfl
  · exact (cutTo_zero maxBound).symm

/-- A handle to a block that holds a cell of the right width at each of some places. -/
def HoldsAt (mem : Memory) (native : Value) (places : List (Int × Nat)) : Prop :=
  ∃ b, native = .handle (some ⟨b, 0⟩) ∧
    ∀ p ∈ places, ∃ cell, mem.cell? ⟨b, p.1⟩ = some cell ∧ cell.width = p.2

theorem Represents.holdsAt {e : Element} {maxBound : Nat} {v native : Value} {mem : Memory}
    {lo hi : Nat} (rep : Represents m t mem lo hi (.sequence e.shape maxBound) v native) :
    HoldsAt mem native
      ((filling ((t.slot e).width m) (copied maxBound (itemCount v))).flatMap Access.stores) := by
  generalize hshape : Shape.sequence e.shape maxBound = shape at rep
  cases rep with
  | sequence e' maxBound' _ items natives b hv _ _ hlength hcount hcells _ =>
    injection hshape with helement hbounds
    cases Element.shape_injective helement
    subst hbounds
    have hcopied : copied maxBound (itemCount v) = natives.length :=
      (copied_itemCount hv maxBound).trans hlength.symm
    have hle : natives.length ≤ items.length := by
      rw [hlength]
      exact cutTo_le maxBound items.length
    refine ⟨b, rfl, ?_⟩
    rw [filling_stores, hcopied]
    refine List.forall_mem_cons.mpr ⟨⟨_, hcount, rfl⟩, List.forall_mem_map.mpr fun k hk => ?_⟩
    have hk : k < natives.length := List.mem_range.mp hk
    have hcell := hcells k _ _ (List.getElem?_eq_getElem (Nat.lt_of_lt_of_le hk hle))
      (List.getElem?_eq_getElem hk)
    exact ⟨_, hcell, Slot.cell_width ..⟩
  | _ => cases hshape

/-- A run of `ToNative` leaves a cell wherever its accesses store something. -/
theorem exec_sequence_stores (strict : Bool) (e : Element) (converts : ElementConverts m t lib e)
    (f : FieldView) (maxBound : Nat) (hbound : maxBound ≤ 2147483647)
    (valueAround placeAround : Value → Value)
    (hvalue : ∀ env, PlaceAt m lib env f.value .value valueAround)
    (hplace : ∀ env, PlaceAt m lib env f.native .transfer placeAround) (v w : Value) (depth : Nat)
    (st : State) (typed : Typed m t strict (.sequence e.shape maxBound) v)
    (hself : st.self = valueAround v) (hwrapper : st.wrapper = placeAround w) :
    ∃ native st' accesses,
      execAll m lib (t.sequenceToNative depth f e maxBound) [] st = some ([], st') ∧
      st'.wrapper = placeAround native ∧
      bodyAccesses? (t.sequenceToNative depth f e maxBound)
        (.start m f.site.field (.list (itemCount v))) = some accesses ∧
      HoldsAt st'.memory native (accesses.flatMap Access.stores) := by
  obtain ⟨native, st', hexec, -, hnative, -, rep⟩ := exec_sequence strict e converts f maxBound
    hbound valueAround placeAround hvalue hplace v w depth st typed hself hwrapper
  obtain ⟨items, hv, -, hcount, hfits, -⟩ := typed.sequence_cases
  have hitems : ∀ n ∈ itemCount v, n ≤ 2147483647 := by
    rcases hv with rfl | ⟨rfl, rfl⟩
    · rintro n ⟨⟩
      exact hcount
    · rintro n ⟨⟩
  rw [← copied_itemCount hv maxBound] at hfits
  have haccesses := t.sequenceToNative_accesses (m := m) e f depth maxBound _ hitems hbound
  rw [filling32_eq hfits] at haccesses
  exact ⟨native, st', _, hexec, hnative, haccesses, rep.holdsAt⟩

/-- A run of `FromNative` reads the cells that are there, and the list gets as many items as its
accesses append. -/
theorem exec_readSequence_loads (e : Element) (reads : ElementReads m t lib e) (f : FieldView)
    (maxBound : Nat) (hmax : maxBound ≤ 2147483647) (around : Value → Value)
    (hvalue : ∀ env, PlaceAt m lib env f.value .value around) (items : List Value) (w x : Value)
    (depth : Nat) (st : State) (lo hi : Nat)
    (hnative : ∀ env st', st'.wrapper = st.wrapper → f.native.eval m lib env st' = some (w, st'))
    (typed : Typed m t true (.sequence e.shape maxBound) (.list items))
    (rep : Represents m t st.memory lo hi (.sequence e.shape maxBound) (.list items) w)
    (hself : st.self = around x) :
    ∃ accesses,
      execAll m lib
        (t.sequenceFromNative depth f e maxBound (listAllocation e.valueType maxBound)) [] st =
          some ([], st.set .value (around (.list items))) ∧
      bodyAccesses? (t.sequenceFromNative depth f e maxBound (listAllocation e.valueType maxBound))
        (.start m f.site.field (.block (some items.length))) = some accesses ∧
      HoldsAt st.memory w (accesses.flatMap Access.loads) ∧
      (accesses.flatMap Access.appended).length = items.length := by
  have hexec := exec_readSequence e reads f maxBound hmax around hvalue (.list items) w x depth st
    lo hi hnative typed rep hself
  obtain ⟨items', hv, hstrict, -, hfits, -⟩ := typed.sequence_cases
  obtain ⟨hlist, hbound⟩ := hstrict rfl
  cases hlist
  have hcut := cutTo_eq_self hbound
  have hholds := rep.holdsAt
  change HoldsAt st.memory w
    ((filling _ (cutTo maxBound items.length)).flatMap Access.stores) at hholds
  have haccesses := t.sequenceFromNative_accesses (m := m) e f depth maxBound items.length hmax
  rw [reading32_eq hfits] at haccesses
  rw [hcut] at hholds haccesses
  exact ⟨_, hexec, haccesses, reading_loads _ _ ▸ hholds, by simp [reading_appended]⟩

end

end InteropGen

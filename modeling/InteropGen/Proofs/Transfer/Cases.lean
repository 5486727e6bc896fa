import InteropGen.Proofs.Transfer.Values

/-!
# Cases of values

What a well-formed value of a shape looks like, and what stands for it on the native side.

* `Typed.string_cases`, `Typed.array_cases`, `Typed.sequence_cases` — values, a null string or
  sequence counting as an empty one;
* `Represents.string_cases`, `Represents.inline_cases`, `Represents.outOfLine_cases`,
  `Represents.sequence_cases` — what represents the values that a round trip keeps.
-/

set_option autoImplicit false

namespace InteropGen

open CSharp

theorem Element.shape_injective {a b : Element} (h : a.shape = b.shape) : a = b := by
  cases a <;> cases b <;> cases h <;> rfl

/-- An array determines its elements. -/
theorem Layout.arrayValue_injective {layout : Layout} {dims : List Nat} {f g : List Nat → Value}
    (h : layout.arrayValue dims f = layout.arrayValue dims g) (idx : List Nat)
    (hidx : InBounds dims idx) : f idx = g idx := by
  induction hidx generalizing f g with
  | nil => exact h
  | @cons i d inner rest hi hinner ih =>
    rw [Layout.arrayValue, Layout.arrayValue] at h
    injection h with _ hrows
    have hrow := congrArg (·[i]?) hrows
    simp only [List.getElem?_map, List.getElem?_range hi, Option.map_some, Option.some.injEq] at hrow
    exact ih hrow

section
variable {m : Machine} {t : Target}

/-- The well-formed values of a string. -/
theorem Typed.string_cases {strict : Bool} {kind : StringKind} {v : Value}
    (h : Typed m t strict (.string kind) v) :
    ∃ units, (v = .text units ∨ v = .null ∧ units = []) ∧ (strict = true → v = .text units) := by
  cases h with
  | text _ units => exact ⟨units, .inl rfl, fun _ => rfl⟩
  | nullText _ hstrict => exact ⟨[], .inr ⟨rfl, rfl⟩, fun h => absurd h (by simp [hstrict])⟩

/-- The well-formed values of an array. -/
theorem Typed.array_cases {strict : Bool} {e : Element} {dims : List Nat} {v : Value}
    (h : Typed m t strict (.array e.shape dims) v) :
    ∃ f, v = t.layout.arrayValue dims f ∧ ValidDims dims ∧
      (∀ length, e.transfer dims = .outOfLine length →
        (t.slot e).width m * length ≤ 2147483647) ∧
      ∀ idx, InBounds dims idx → Typed m t strict e.shape (f idx) := by
  generalize hshape : Shape.array e.shape dims = shape at h
  cases h with
  | array e' dims' f valid hfits helements =>
    injection hshape with helement hdims
    cases Element.shape_injective helement
    subst hdims
    exact ⟨f, rfl, valid, hfits, helements⟩
  | _ => cases hshape

/-- The well-formed values of a sequence; a null list counts as an empty one. -/
theorem Typed.sequence_cases {strict : Bool} {e : Element} {maxBound : Nat} {v : Value}
    (h : Typed m t strict (.sequence e.shape maxBound) v) :
    ∃ items, (v = .list items ∨ v = .null ∧ items = []) ∧
      (strict = true → v = .list items ∧ (maxBound = 0 ∨ items.length ≤ maxBound)) ∧
      items.length ≤ 2147483647 ∧
      4 + cutTo maxBound items.length * (t.slot e).width m ≤ 2147483647 ∧
      ∀ item ∈ items, Typed m t strict e.shape item := by
  generalize hshape : Shape.sequence e.shape maxBound = shape at h
  cases h with
  | list e' maxBound' items hitems hbound hcount hfits =>
    injection hshape with helement hbounds
    cases Element.shape_injective helement
    subst hbounds
    exact ⟨items, .inl rfl, fun h => ⟨rfl, hbound h⟩, hcount, hfits, hitems⟩
  | nullList e' maxBound' hstrict =>
    refine ⟨[], .inr ⟨rfl, rfl⟩, fun h => absurd h (by simp [hstrict]), by simp, ?_, by simp⟩
    rw [List.length_nil, cutTo_zero]
    omega
  | _ => cases hshape

/-- The string behind a handle that represents it. -/
theorem Represents.string_cases {kind : StringKind} {v native : Value} {mem : Memory} {lo hi : Nat}
    (typed : Typed m t true (.string kind) v)
    (rep : Represents m t mem lo hi (.string kind) v native) :
    ∃ units b, v = .text units ∧ native = .handle (some ⟨b, 0⟩) ∧
      mem.blocks b = some (.text (t.platform.encoding kind) units) := by
  obtain ⟨units, _, hstrict⟩ := typed.string_cases
  have htext := hstrict rfl
  subst htext
  cases rep with
  | text _ _ units' b hv _ _ hblock =>
    rcases hv with hv | ⟨hnull, _⟩
    · cases hv
      exact ⟨units, b, rfl, rfl, hblock⟩
    · cases hnull

/-- The items inside a transfer struct that stand for an array. -/
theorem Represents.inline_items {e : Element} {dims : List Nat} {length : Nat} {v native : Value}
    {mem : Memory} {lo hi : Nat} (htransfer : e.transfer dims = .inline length)
    (rep : Represents m t mem lo hi (.array e.shape dims) v native) :
    ∃ f natives, v = t.layout.arrayValue dims f ∧ native = .array 1 natives ∧
      natives.length = dims.prod ∧ ∀ idx, InBounds dims idx → ∃ item,
        natives[flat dims idx]? = some item ∧ Represents m t mem lo hi e.shape (f idx) item := by
  generalize hshape : Shape.array e.shape dims = shape at rep
  cases rep with
  | inline e' dims' length' f natives htransfer' hlength hreps =>
    injection hshape with helement hdims
    cases Element.shape_injective helement
    subst hdims
    refine ⟨f, natives, rfl, rfl, hlength, ?_⟩
    intro idx hidx
    have hitem := List.getElem?_eq_getElem (hlength ▸ flat_lt hidx : flat dims idx < natives.length)
    exact ⟨_, hitem, hreps idx _ hidx hitem⟩
  | outOfLine e' dims' length' f natives b htransfer' =>
    injection hshape with helement hdims
    cases Element.shape_injective helement
    subst hdims
    rw [htransfer] at htransfer'
    cases htransfer'
  | _ => cases hshape

/-- The same of an array that a round trip keeps. -/
theorem Represents.inline_cases {e : Element} {dims : List Nat} {length : Nat} {v native : Value}
    {mem : Memory} {lo hi : Nat} (htransfer : e.transfer dims = .inline length)
    (typed : Typed m t true (.array e.shape dims) v)
    (rep : Represents m t mem lo hi (.array e.shape dims) v native) :
    ∃ f natives, v = t.layout.arrayValue dims f ∧ native = .array 1 natives ∧ ValidDims dims ∧
      natives.length = dims.prod ∧ ∀ idx, InBounds dims idx → ∃ item,
        natives[flat dims idx]? = some item ∧ Typed m t true e.shape (f idx) ∧
          Represents m t mem lo hi e.shape (f idx) item := by
  obtain ⟨g, hg, valid, _, helements⟩ := typed.array_cases
  obtain ⟨f, natives, hf, hnative, hlength, hitems⟩ := rep.inline_items htransfer
  refine ⟨f, natives, hf, hnative, valid, hlength, ?_⟩
  intro idx hidx
  obtain ⟨item, hitem, hrep⟩ := hitems idx hidx
  refine ⟨item, hitem, ?_, hrep⟩
  rw [Layout.arrayValue_injective (hf.symm.trans hg) idx hidx]
  exact helements idx hidx

/-- The buffer that stands for an array, slot by slot. -/
theorem Represents.outOfLine_cases {e : Element} {dims : List Nat} {length : Nat}
    {v native : Value} {mem : Memory} {lo hi : Nat}
    (htransfer : e.transfer dims = .outOfLine length)
    (typed : Typed m t true (.array e.shape dims) v)
    (rep : Represents m t mem lo hi (.array e.shape dims) v native) :
    ∃ f b, v = t.layout.arrayValue dims f ∧ native = .handle (some ⟨b, 0⟩) ∧ ValidDims dims ∧
      (t.slot e).width m * dims.prod ≤ 2147483647 ∧ ∀ idx, InBounds dims idx → ∃ item,
        mem.cell? ⟨b, (flat dims idx * (t.slot e).width m : Nat)⟩ =
          some (t.cell m e (f idx) item) ∧ Typed m t true e.shape (f idx) ∧
          Represents m t mem lo hi e.shape (f idx) item := by
  obtain ⟨g, hg, valid, hfits, helements⟩ := typed.array_cases
  obtain ⟨rfl, _⟩ := Element.transfer_eq_outOfLine htransfer
  have hsize := hfits _ htransfer
  generalize hshape : Shape.array e.shape dims = shape at rep
  cases rep with
  | outOfLine e' dims' length' f natives b htransfer' _ _ hlength hcells hreps =>
    injection hshape with helement hdims
    cases Element.shape_injective helement
    subst hdims
    refine ⟨f, b, rfl, rfl, valid, hsize, ?_⟩
    intro idx hidx
    have hitem := List.getElem?_eq_getElem (hlength ▸ flat_lt hidx : flat dims idx < natives.length)
    refine ⟨_, hcells idx _ hidx hitem, ?_, hreps idx _ hidx hitem⟩
    rw [Layout.arrayValue_injective hg idx hidx]
    exact helements idx hidx
  | inline e' dims' length' f natives htransfer' =>
    injection hshape with helement hdims
    cases Element.shape_injective helement
    subst hdims
    rw [htransfer] at htransfer'
    cases htransfer'
  | _ => cases hshape

/-- The buffer that stands for a list, with its count and slot by slot. -/
theorem Represents.sequence_cases {e : Element} {maxBound : Nat} {v native : Value} {mem : Memory}
    {lo hi : Nat} (typed : Typed m t true (.sequence e.shape maxBound) v)
    (rep : Represents m t mem lo hi (.sequence e.shape maxBound) v native) :
    ∃ items b, v = .list items ∧ native = .handle (some ⟨b, 0⟩) ∧
      (maxBound = 0 ∨ items.length ≤ maxBound) ∧
      4 + items.length * (t.slot e).width m ≤ 2147483647 ∧
      mem.cell? ⟨b, 0⟩ = some ⟨.word .int32, 4, .int items.length⟩ ∧
      ∀ (k : Nat) v', items[k]? = some v' → ∃ item,
        mem.cell? ⟨b, (4 + k * (t.slot e).width m : Nat)⟩ = some (t.cell m e v' item) ∧
          Typed m t true e.shape v' ∧ Represents m t mem lo hi e.shape v' item := by
  obtain ⟨items, _, hstrict, _, hfits, hitems⟩ := typed.sequence_cases
  obtain ⟨hlist, hbound⟩ := hstrict rfl
  have hcut := cutTo_eq_self hbound
  rw [hcut] at hfits
  generalize hshape : Shape.sequence e.shape maxBound = shape at rep
  cases rep with
  | sequence e' maxBound' _ items' natives b hv _ _ hlength hcount hcells hreps =>
    injection hshape with helement hbounds
    cases Element.shape_injective helement
    subst hbounds
    rw [hlist] at hv
    rcases hv with hv | ⟨hv, _⟩
    · cases hv
      rw [hcut] at hlength
      refine ⟨items, b, hlist, rfl, hbound, hfits, hlength ▸ hcount, ?_⟩
      intro k v' hv'
      have hk := (List.getElem?_eq_some_iff.mp hv').1
      have hitem := List.getElem?_eq_getElem (hlength ▸ hk : k < natives.length)
      exact ⟨_, hcells k v' _ hv' hitem, hitems v' (List.mem_of_getElem? hv'),
        hreps k v' _ hv' hitem⟩
    · cases hv
  | _ => cases hshape

end

end InteropGen

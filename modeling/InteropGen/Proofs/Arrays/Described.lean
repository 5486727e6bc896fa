import InteropGen.Proofs.Arrays.Places
import InteropGen.Proofs.Machine.Arrays

/-!
# Values with rows

The rows that a tree says a value has. Reading and replacing along indices can be done on the value
wherever it can be done on the tree, and does the same.

* `Rows.Describes` — the relation; a leaf of the tree says nothing about what stands there;
* `Rows.Describes.reach`, `Rows.Describes.put` — reading and replacing along indices;
* `Rows.Describes.arrayValue` — a value with all rows of an array is an array of its dimensions.
-/

set_option autoImplicit false

namespace InteropGen.CSharp

namespace Rows

/-- Where the tree has a row, the value has an array of rank one with as many items. -/
inductive Describes : Rows → Value → Prop
  | leaf (v : Value) : Describes .leaf v
  | row (type : Ty) (cells : List Rows) (items : List Value) (hlength : items.length = cells.length)
      (hitems : ∀ (i : Nat) cell item, cells[i]? = some cell → items[i]? = some item →
        Describes cell item) :
      Describes (.row type cells) (.array 1 items)

namespace Describes
variable {r x : Rows} {v w : Value}

theorem item (h : r.Describes v) {indices : List Nat} (hitem : r.item? indices = some x) :
    ∃ w, v.item? indices = some w ∧ x.Describes w := by
  cases h with
  | leaf => cases hitem
  | row type cells items hlength hitems =>
    unfold Rows.item? at hitem
    split at hitem
    · rename_i i heq
      cases heq
      have hi : i < items.length := by
        rw [hlength]
        exact (List.getElem?_eq_some_iff.mp hitem).1
      exact ⟨items[i], by simp [Value.item?, Value.at?, hi],
        hitems i x _ hitem (List.getElem?_eq_getElem hi)⟩
    · cases hitem

theorem setItem (h : r.Describes v) (hx : x.Describes w) {indices : List Nat} {r' : Rows}
    (hset : setItem? x r indices = some r') :
    ∃ v', Value.setItem? w indices v = some v' ∧ r'.Describes v' := by
  cases h with
  | leaf => cases hset
  | row type cells items hlength hitems =>
    unfold Rows.setItem? at hset
    split at hset
    · rename_i i heq
      cases heq
      split at hset
      · rename_i hi
        cases hset
        refine ⟨.array 1 (items.set i w), by simp [Value.setItem?, Value.put?, hlength, hi], ?_⟩
        refine .row type _ _ (by simp [hlength]) ?_
        intro j cell item hcell hitem
        by_cases hij : i = j
        · subst hij
          rw [List.getElem?_set_self hi] at hcell
          rw [List.getElem?_set_self (by omega)] at hitem
          cases hcell
          cases hitem
          exact hx
        · rw [List.getElem?_set_ne hij] at hcell hitem
          exact hitems j cell item hcell hitem
      · cases hset
    · cases hset

/-- What can be reached in the tree is there in the value. -/
theorem reach (h : r.Describes v) (groups : List (List Nat)) (hreach : r.reach? groups = some x) :
    ∃ w, v.along? groups = some w ∧ x.Describes w := by
  induction groups generalizing r v with
  | nil =>
    cases hreach
    exact ⟨v, rfl, h⟩
  | cons indices rest ih =>
    simp only [Rows.reach?, List.foldlM_cons, Option.bind_eq_bind, Option.bind_eq_some_iff] at hreach
    obtain ⟨inner, hinner, hrest⟩ := hreach
    obtain ⟨item, hitem, hdescribes⟩ := h.item hinner
    obtain ⟨w, hw, hx⟩ := ih hdescribes hrest
    exact ⟨w, by simpa [Value.along?, hitem] using hw, hx⟩

/-- What can be replaced in the tree can be replaced in the value. -/
theorem put (h : r.Describes v) (hx : x.Describes w) (groups : List (List Nat)) {r' : Rows}
    (hput : put? x r groups = some r') :
    ∃ v', v.replace? w groups = some v' ∧ r'.Describes v' := by
  induction groups generalizing r v r' with
  | nil =>
    cases hput
    exact ⟨w, rfl, hx⟩
  | cons indices rest ih =>
    simp only [Rows.put?, putAlong, Option.bind_eq_bind, Option.bind_eq_some_iff] at hput
    obtain ⟨inner, hinner, changed, hchanged, hset⟩ := hput
    obtain ⟨item, hitem, hdescribes⟩ := h.item hinner
    obtain ⟨item', hreplace, hdescribes'⟩ := ih hdescribes hchanged
    obtain ⟨v', hv', hr'⟩ := h.setItem hdescribes' hset
    rw [Value.replace?] at hreplace
    exact ⟨v', by simp [Value.replace?, putAlong, hitem, hreplace, hv'], hr'⟩

/-- Items copied over the first ones of an array. -/
theorem clear {old : List Value} (h : r.Describes (.array 1 old)) {items : List Value} {n : Nat}
    (hitems : n ≤ items.length) :
    (r.clear n).Describes (.array 1 (items.take n ++ old.drop n)) := by
  cases h with
  | leaf => exact .leaf _
  | row type cells _ hlength hcells =>
    refine .row type _ _ (by simp [hlength, hitems]) ?_
    intro i cell item hcell hitem
    by_cases hi : i < n
    · rw [List.getElem?_append_left (by simpa using hi), List.getElem?_replicate_of_lt hi] at hcell
      cases hcell
      exact .leaf item
    · rw [List.getElem?_append_right (by simpa using hi), List.length_replicate,
        List.getElem?_drop] at hcell
      rw [List.getElem?_append_right (by simp; omega), List.length_take, Nat.min_eq_left hitems,
        List.getElem?_drop] at hitem
      exact hcells _ cell item hcell hitem

/-- A value with all rows of an array is an array of these dimensions. -/
theorem arrayValue {element : Ty} {dims : List Nat} (h : (full element dims).Describes v) :
    ∃ items, v = Layout.jagged.arrayValue dims items := by
  induction dims generalizing v with
  | nil => exact ⟨fun _ => v, rfl⟩
  | cons d rest ih =>
    rw [full] at h
    cases h with
    | row type cells items hlength hitems =>
    rw [List.length_replicate] at hlength
    have hrow : ∀ i : Nat, ∃ inner, ∀ item, items[i]? = some item →
        item = Layout.jagged.arrayValue rest inner := by
      intro i
      cases hitem : items[i]? with
      | none => exact ⟨fun _ => .null, by simp⟩
      | some item =>
        obtain ⟨hi, _⟩ := List.getElem?_eq_some_iff.mp hitem
        obtain ⟨inner, hinner⟩ := ih (hitems i _ item
          (List.getElem?_replicate_of_lt (by omega)) hitem)
        exact ⟨inner, fun _ heq => Option.some.inj heq ▸ hinner⟩
    choose inner hinner using hrow
    refine ⟨fun idx => inner (idx.headD 0) idx.tail, ?_⟩
    rw [Layout.arrayValue]
    congr 1
    apply List.ext_getElem?
    intro i
    cases hitem : items[i]? with
    | none =>
      rw [List.getElem?_eq_none_iff, hlength] at hitem
      simp [hitem]
    | some item =>
      obtain ⟨hi, _⟩ := List.getElem?_eq_some_iff.mp hitem
      have hlt : i < d := by omega
      rw [hinner i item hitem]
      simp [hlt]

end Describes

/-- The property of an object has the rows. -/
def HeldBy (r : Rows) (name : String) (object : Value) : Prop :=
  ∃ v, object.field? name = some v ∧ r.Describes v

/-- What is there can be put back. -/
theorem put?_reached {r x : Rows} {groups : List (List Nat)} (h : r.reach? groups = some x) :
    put? x r groups = some r := by
  induction groups generalizing r with
  | nil =>
    cases h
    rfl
  | cons indices rest ih =>
    simp only [reach?, List.foldlM_cons, Option.bind_eq_bind, Option.bind_eq_some_iff] at h
    obtain ⟨inner, hinner, hrest⟩ := h
    have hback := ih hrest
    rw [put?] at hback
    simp only [put?, putAlong, hinner, hback, Option.bind_eq_bind, Option.bind_some]
    unfold item? at hinner
    split at hinner
    · obtain ⟨hi, rfl⟩ := List.getElem?_eq_some_iff.mp hinner
      simp [setItem?, hi]
    · cases hinner

end Rows

end InteropGen.CSharp

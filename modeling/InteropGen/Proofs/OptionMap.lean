import Mathlib.Data.List.Forall2
import Mathlib.Data.Option.Basic

/-!
# Lists that are read item by item

A list is read by a function that may have no result, and there is a result only if every item has
one.
-/

set_option autoImplicit false

namespace InteropGen

variable {α β : Type}

theorem option_mapM_eq_some_iff (f : α → Option β) (items : List α) (results : List β) :
    items.mapM f = some results ↔ List.Forall₂ (fun a b => f a = some b) items results := by
  induction items generalizing results with
  | nil => cases results <;> simp
  | cons a rest ih =>
    rw [List.mapM_cons]
    simp only [Option.bind_eq_bind, Option.bind_eq_some_iff, ih]
    constructor
    · intro h
      obtain ⟨b, hb, others, hothers, hresult⟩ := h
      cases hresult
      exact .cons hb hothers
    · intro h
      cases h with
      | cons hb hothers => exact ⟨_, hb, _, hothers, rfl⟩

theorem option_mapM_of_mem (f : α → Option β) (g : α → β) (items : List α)
    (h : ∀ a ∈ items, f a = some (g a)) : items.mapM f = some (items.map g) := by
  induction items with
  | nil => rfl
  | cons a rest ih =>
    obtain ⟨ha, hrest⟩ := List.forall_mem_cons.mp h
    simp [ha, ih hrest]

/-- Every result was read from some item. -/
theorem mem_of_option_mapM {f : α → Option β} {items : List α} {results : List β}
    (h : items.mapM f = some results) (b : β) (hb : b ∈ results) : ∃ a ∈ items, f a = some b := by
  have hitems := (option_mapM_eq_some_iff f items results).mp h
  induction hitems with
  | nil => cases hb
  | cons hhead htail ih =>
    rcases List.mem_cons.mp hb with rfl | hb
    · exact ⟨_, List.mem_cons_self .., hhead⟩
    · obtain ⟨a, ha, hresult⟩ := ih ((option_mapM_eq_some_iff f _ _).mpr htail) hb
      exact ⟨a, List.mem_cons_of_mem _ ha, hresult⟩

end InteropGen

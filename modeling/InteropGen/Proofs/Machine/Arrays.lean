import InteropGen.Proofs.Machine.Nest

/-!
# Arrays in execution

Arrays of several dimensions in both layouts: the value they have, and how an element of one is
reached.

* `Hole` — an array around one spot, reached by the outermost indices;
* `placeAt_elementAt` — the elements are places, whichever layout the expression is written for.
-/

set_option autoImplicit false

namespace InteropGen

open CSharp

namespace Layout

/-- The rank of an array of which so many dimensions are left. -/
def levelRank (layout : Layout) (remaining : Nat) : Nat :=
  match layout with
  | rectangular => remaining
  | jagged => 1

/-- The array whose element at each tuple is given. -/
def arrayValue (layout : Layout) : (dims : List Nat) → (List Nat → Value) → Value
  | [], f => f []
  | d :: rest, f =>
    .array (layout.levelRank (rest.length + 1))
      ((List.range d).map fun i => layout.arrayValue rest fun inner => f (i :: inner))

theorem arrayValue_const (layout : Layout) (d : Nat) (rest : List Nat) (x : Value) :
    (layout.arrayValue (d :: rest) fun _ => x) =
      .array (layout.levelRank (rest.length + 1))
        (List.replicate d (layout.arrayValue rest fun _ => x)) := by
  rw [arrayValue, List.map_const', List.length_range]

end Layout

theorem newArrayValue_eq (x : Value) (dims : List Nat) :
    newArrayValue x dims = Layout.rectangular.arrayValue dims fun _ => x := by
  induction dims with
  | nil => rfl
  | cons d rest ih =>
    rw [Layout.arrayValue_const, newArrayValue, ih]
    rfl

/-- A list around one of its items. -/
theorem list_around {α : Type} (items : List α) (i : Nat) (x : α) (h : items[i]? = some x) :
    items = items.take i ++ x :: items.drop (i + 1) := by
  obtain ⟨hi, hget⟩ := List.getElem?_eq_some_iff.mp h
  rw [← hget, ← List.drop_eq_getElem_cons hi, List.take_append_drop]

/-- The arrays around one spot. The indices lead to it from the outermost array, and `remaining`
dimensions are still inside of it. -/
inductive Hole (layout : Layout) : (remaining : Nat) → List Nat → (Value → Value) → Prop
  | here (remaining : Nat) : Hole layout remaining [] id
  | inside (remaining : Nat) (o : List Nat) (around : Value → Value) (before after : List Value)
      (outer : Hole layout (remaining + 1) o around) :
      Hole layout remaining (o ++ [before.length]) fun x =>
        around (.array (layout.levelRank (remaining + 1)) (before ++ x :: after))

/-- Every element of an array stands in a hole of it. -/
theorem Hole.of_inBounds {layout : Layout} {dims idx o : List Nat} {around : Value → Value}
    (hole : Hole layout dims.length o around) (h : InBounds dims idx) (f : List Nat → Value) :
    ∃ inner, Hole layout 0 (o ++ idx) inner ∧
      inner (f idx) = around (layout.arrayValue dims f) := by
  induction dims generalizing idx o around f with
  | nil =>
    rw [h.eq_nil, List.append_nil]
    exact ⟨around, hole, rfl⟩
  | cons d rest ih =>
    obtain ⟨i, tail, rfl, hi, htail⟩ := h.cases_cons
    let rows := (List.range d).map fun j => layout.arrayValue rest fun inner => f (j :: inner)
    have hrow : rows[i]? = some (layout.arrayValue rest fun inner => f (i :: inner)) := by
      simp [rows, hi]
    have hlength : (rows.take i).length = i := by
      simp [rows, Nat.le_of_lt hi]
    have hinside := Hole.inside rest.length o around (rows.take i) (rows.drop (i + 1)) hole
    rw [hlength] at hinside
    obtain ⟨inner, hinner, heq⟩ := ih hinside htail fun inner => f (i :: inner)
    refine ⟨inner, ?_, ?_⟩
    · rw [List.append_cons]
      exact hinner
    · rw [heq, Layout.arrayValue]
      exact congrArg (fun items => around (.array _ items)) (list_around rows i _ hrow).symm

namespace CSharp

namespace Value

theorem item?_of_at? (v x : Value) (i : Nat) (inner : List Nat)
    (h : v.at? (i :: inner) = some x) : v.item? (i :: inner) = some x := by
  cases v with
  | array rank items => exact h
  | _ => cases h

theorem setItem?_of_put? (v x y : Value) (i : Nat) (inner : List Nat)
    (h : put? x (i :: inner) v = some y) : setItem? x (i :: inner) v = some y := by
  cases v with
  | array rank items => exact h
  | _ => cases h

end Value

end CSharp

/-- Reaching into a rectangular array and on from its hole. -/
theorem Hole.at? {remaining : Nat} {o : List Nat} {around : Value → Value}
    (hole : Hole .rectangular remaining o around) (inner : List Nat)
    (h : inner.length = remaining) (x : Value) :
    (around x).at? (o ++ inner) = x.at? inner := by
  induction hole generalizing inner x with
  | here remaining => rfl
  | inside remaining o around before after outer ih =>
    have hrank : Layout.rectangular.levelRank (remaining + 1) = inner.length + 1 := by
      rw [h]
      rfl
    rw [List.append_assoc, List.singleton_append, ih (before.length :: inner) (by simp [h]),
      Value.at?, if_pos hrank]
    simp

theorem Hole.put? {remaining : Nat} {o : List Nat} {around : Value → Value}
    (hole : Hole .rectangular remaining o around) (inner : List Nat)
    (h : inner.length = remaining) (x y : Value) :
    Value.put? y (o ++ inner) (around x) = (Value.put? y inner x).map around := by
  induction hole generalizing inner x with
  | here remaining => simp
  | inside remaining o around before after outer ih =>
    have hrank : Layout.rectangular.levelRank (remaining + 1) = inner.length + 1 := by
      rw [h]
      rfl
    rw [List.append_assoc, List.singleton_append, ih (before.length :: inner) (by simp [h]),
      Value.put?, if_pos hrank]
    cases hput : Value.put? y inner x with
    | none => simp [hput]
    | some changed => simp [hput]

section
variable (m : Machine) (lib : Library)

/-- The item of an array of rank one is a place, if the array is. -/
theorem placeAt_index {env : Env} {e index : Expr} {owner : Owner} {around : Value → Value}
    (place : PlaceAt m lib env e owner around) (before after : List Value)
    (hindex : Bound m lib env index (.int before.length)) :
    PlaceAt m lib env (.index e [index]) owner fun x =>
      around (.array 1 (before ++ x :: after)) where
  eval := by
    intro st x hst
    simp [Expr.eval, evalAll, place.eval st _ hst, hindex st, Value.item?, Value.at?]
  assign := by
    intro st x y hst
    simp [Expr.assign, evalAll, place.eval st _ hst, hindex st, Value.setItem?,
      Value.put?, place.assign st _ _ hst]

/-- Reading an item of an array of rank one. -/
theorem eval_item {env : Env} {e index : Expr} {items : List Value} {i : Nat} {x : Value}
    {st : State} (harray : e.eval m lib env st = some (.array 1 items, st))
    (hindex : Bound m lib env index (.int i)) (hitem : items[i]? = some x) :
    (Expr.index e [index]).eval m lib env st = some (x, st) := by
  simp [Expr.eval, evalAll, harray, hindex st, Value.item?, Value.at?, hitem]

/-- The item of a list is a place. -/
theorem placeAt_listItem {env : Env} {e index : Expr} {owner : Owner} {around : Value → Value}
    (place : PlaceAt m lib env e owner around) (before after : List Value)
    (hindex : Bound m lib env index (.int before.length)) :
    PlaceAt m lib env (.index e [index]) owner fun x =>
      around (.list (before ++ x :: after)) where
  eval := by
    intro st x hst
    simp [Expr.eval, evalAll, place.eval st _ hst, hindex st, Value.item?]
  assign := by
    intro st x y hst
    simp [Expr.assign, evalAll, place.eval st _ hst, hindex st, Value.setItem?,
      place.assign st _ _ hst]

/-- The jagged element behind a hole, one index after the other. -/
theorem placeAt_jaggedAccess {env : Env} {base : Expr} {owner : Owner} {root : Value → Value}
    (place : PlaceAt m lib env base owner root) {remaining : Nat} {o : List Nat}
    {around : Value → Value} (hole : Hole .jagged remaining o around) (indices : List Expr)
    (hindices : List.Forall₂ (Bound m lib env) indices (o.map fun (i : Nat) => .int i)) :
    PlaceAt m lib env (jaggedAccess base indices) owner fun x => root (around x) := by
  induction hole generalizing indices with
  | here remaining =>
    cases hindices
    exact place
  | inside remaining o around before after outer ih =>
    rw [List.map_append, List.map_singleton] at hindices
    have houter := List.forall₂_take_append _ _ _ hindices
    have hlast := List.forall₂_drop_append _ _ _ hindices
    rw [← List.take_append_drop (o.map fun (i : Nat) => Value.int i).length indices]
    generalize indices.take _ = outerIndices at houter ⊢
    generalize indices.drop _ = last at hlast ⊢
    cases hlast with
    | cons hindex hnil =>
      cases hnil
      rw [jaggedAccess, List.foldl_append]
      exact placeAt_index m lib (ih outerIndices houter) before after hindex

/-- The rectangular element behind a hole, all indices at once. -/
theorem placeAt_rectangular {env : Env} {base : Expr} {owner : Owner} {root : Value → Value}
    (place : PlaceAt m lib env base owner root) {i : Nat} {inner : List Nat}
    {around : Value → Value} (hole : Hole .rectangular 0 (i :: inner) around) (indices : List Expr)
    (hindices : List.Forall₂ (Bound m lib env) indices ((i :: inner).map fun (i : Nat) => .int i)) :
    PlaceAt m lib env (.index base indices) owner fun x => root (around x) where
  eval := by
    intro st x hst
    have hat : (around x).at? (i :: inner) = some x := by
      have hreach := hole.at? [] rfl x
      rwa [List.append_nil] at hreach
    simp only [Expr.eval, place.eval st _ hst, evalAll_bound m lib hindices st,
      Option.bind_eq_bind, Option.bind_some, Value.mapM_index?,
      Value.item?_of_at? _ _ _ _ hat, Option.map_some]
  assign := by
    intro st x y hst
    have hput : Value.put? y (i :: inner) (around x) = some (around y) := by
      have hreach := hole.put? [] rfl x y
      rwa [List.append_nil] at hreach
    simp only [Expr.assign, place.eval st _ hst, evalAll_bound m lib hindices st,
      Option.bind_eq_bind, Option.bind_some, Value.mapM_index?,
      Value.setItem?_of_put? _ _ _ _ _ hput, place.assign st _ _ hst]

theorem placeAt_elementAt {env : Env} {base : Expr} {owner : Owner} {root : Value → Value}
    (place : PlaceAt m lib env base owner root) (layout : Layout) {idx : List Nat}
    {around : Value → Value} (hole : Hole layout 0 idx around) (hidx : idx ≠ [])
    {depth : Nat} {counters : List Expr} (hcounters : Counting depth env counters idx) :
    PlaceAt m lib env (layout.elementAt base counters) owner fun x => root (around x) := by
  have hbounds := hcounters.bounds m lib
  cases layout with
  | jagged => exact placeAt_jaggedAccess m lib place hole counters hbounds
  | rectangular =>
    cases idx with
    | nil => exact absurd rfl hidx
    | cons i inner => exact placeAt_rectangular m lib place hole counters hbounds

/-- The element of a whole array is a place in it, wherever the array is. -/
theorem exists_placeAt_elementAt (layout : Layout) {dims idx : List Nat} (valid : ValidDims dims)
    (hidx : InBounds dims idx) (f : List Nat → Value) :
    ∃ around : Value → Value, around (f idx) = layout.arrayValue dims f ∧
      ∀ env base owner root depth counters, PlaceAt m lib env base owner root →
        Counting depth env counters idx →
        PlaceAt m lib env (layout.elementAt base counters) owner fun x => root (around x) := by
  obtain ⟨around, hole, harray⟩ := Hole.of_inBounds (.here dims.length : Hole layout _ [] id) hidx f
  rw [List.nil_append] at hole
  exact ⟨around, harray, fun _ _ _ _ _ _ place hcounters =>
    placeAt_elementAt m lib place layout hole (hidx.ne_nil valid.nonempty) hcounters⟩

end

end InteropGen

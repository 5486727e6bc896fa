import InteropGen.Proofs.Transfer.Compiled
import InteropGen.Proofs.Transfer.Loads

/-!
# First values

The statements that `Target.initial` writes for a property run to their end and put the same value
into it every time. Nothing else changes.

* `exec_initialArray` — an array, its rows and its elements;
* `exec_initial` — a property of any shape.
-/

set_option autoImplicit false

namespace InteropGen

open CSharp

theorem Element.fill?_eq_some {e : Element} {fill : Expr} (h : e.fill? = some fill) :
    fill = e.initialValue ∧ e.shape.isNullByDefault = true := by
  cases e <;> cases h <;> exact ⟨rfl, rfl⟩

section
variable {m : Machine} {t : Target} {lib : Library}

theorem bound_initialValue (e : Element) (constructs : ∀ s, e = .struct s → Constructs m lib s) :
    ∃ x, ∀ env, Bound m lib env e.initialValue x := by
  cases e with
  | primitive kind =>
    cases kind with
    | f32 | f64 | longdouble | bool | char | wchar => exact ⟨_, fun _ _ => rfl⟩
    | _ => exact ⟨.int 0, fun env => bound_nat m lib env 0 (by omega)⟩
  | string kind => exact ⟨.text [], fun _ _ => rfl⟩
  | enum en => exact ⟨lib.zero (valueTypeOf en.name), fun _ _ => rfl⟩
  | struct s =>
    obtain ⟨object, _, hconstruct⟩ := constructs s rfl
    refine ⟨object, ?_⟩
    intro env st
    simp [Element.initialValue, Expr.eval, evalAll, hconstruct]

/-- The statements that complete a fresh array. -/
theorem exec_fillArray (e : Element) (constructs : ∀ s, e = .struct s → Constructs m lib s)
    (f : FieldView) (dims : List Nat) (valid : ValidDims dims) (depth : Nat) :
    ∃ x, ∀ (around : Value → Value) (_ : ∀ env, PlaceAt m lib env f.value .value around)
      (st : State), execAll m lib (t.fillArray depth f e dims) []
        (st.set .value (around (t.layout.freshArray (lib.zero e.valueType) dims))) =
          some ([], st.set .value (around x)) := by
  cases hfill : e.fill? with
  | none =>
    refine ⟨t.layout.arrayValue dims fun _ => lib.zero e.valueType, ?_⟩
    intro around hvalue st
    simp only [Target.fillArray, hfill]
    exact exec_rows m lib t.layout f.value around hvalue e.valueType dims valid depth [] st
  | some fill =>
    obtain ⟨rfl, _⟩ := Element.fill?_eq_some hfill
    obtain ⟨x, hx⟩ := bound_initialValue e constructs
    refine ⟨t.layout.arrayValue dims fun _ => x, ?_⟩
    intro around hvalue st
    simp only [Target.fillArray, hfill]
    refine exec_fill m lib t.layout f.value around hvalue e.valueType dims valid depth []
      (fun _ => st) (fun _ => x) _ ?_
    intro idx _ env' counters root hcounters _ place
    let before := st.set .value (root (lib.zero e.valueType))
    have hassign := exec_assign m lib (t.layout.elementAt f.value counters) e.initialValue x env' env'
      before before _ (hx env' before) ((place env' hcounters).assign before _ x rfl)
    exact ⟨[], execAll_cons m lib _ [] env' env' before _ hassign⟩

/-- The first value of a property of array type. -/
theorem exec_initialArray (e : Element) (constructs : ∀ s, e = .struct s → Constructs m lib s)
    (f : FieldView) (dims : List Nat) (valid : ValidDims dims) (depth : Nat) :
    ∃ x, ∀ (around : Value → Value) (_ : ∀ env, PlaceAt m lib env f.value .value around) (w : Value)
      (st : State), st.self = around w →
        execAll m lib (.assign f.value (t.layout.arrayAllocation e.valueType dims) ::
          if t.layout.needsElementInit e.shape dims then t.fillArray depth f e dims else []) [] st =
            some ([], st.set .value (around x)) := by
  let fresh := t.layout.freshArray (lib.zero e.valueType) dims
  have hfresh : ∀ (around : Value → Value) (_ : ∀ env, PlaceAt m lib env f.value .value around)
      (w : Value) (st : State), st.self = around w →
      (Stmt.assign f.value (t.layout.arrayAllocation e.valueType dims)).exec m lib [] st =
        some ([], st.set .value (around fresh)) := fun _ hvalue _ _ hself =>
    exec_freshArray m lib t.layout (hvalue []) e.valueType valid.nonempty hself
  by_cases hinit : t.layout.needsElementInit e.shape dims = true
  · obtain ⟨x, hfill⟩ := exec_fillArray (t := t) e constructs f dims valid depth
    refine ⟨x, ?_⟩
    intro around hvalue w st hself
    rw [execAll_cons m lib _ _ [] [] st _ (hfresh around hvalue w st hself), if_pos hinit]
    exact hfill around hvalue st
  · refine ⟨fresh, ?_⟩
    intro around hvalue w st hself
    rw [execAll_cons m lib _ _ [] [] st _ (hfresh around hvalue w st hself), if_neg hinit]
    rfl

/-- The first value of one property. -/
theorem exec_initial (f : FieldView) (depth : Nat) (htransferable : f.shape.Transferable t.layout)
    (constructs : ∀ s ∈ f.shape.structs, Constructs m lib s)
    (hbound : ∀ element maxBound, f.shape = .sequence element maxBound → maxBound ≤ 2147483647) :
    ∃ x, ∀ p vals st, st.self = .record p vals →
      execAll m lib (t.initial depth f).stmts [] st =
        some ([], st.set .value (.record p (Function.update vals f.site.field x))) := by
  have hvalue : ∀ p vals env, PlaceAt m lib env f.value .value fun x =>
      .record p (Function.update vals f.site.field x) :=
    fun p vals env => placeAt_field m lib env .value f.site.field p vals
  have hself : ∀ p vals (st : State), st.self = .record p vals →
      st.self = .record p (Function.update vals f.site.field (vals f.site.field)) := by
    intro p vals st h
    rw [h, Function.update_eq_self]
  have hassign : ∀ value x, (∀ env, Bound m lib env value x) → ∀ p vals (st : State),
      st.self = .record p vals → execAll m lib [.assign f.value value] [] st =
        some ([], st.set .value (.record p (Function.update vals f.site.field x))) := by
    intro value x hx p vals st h
    exact execAll_cons m lib _ [] [] [] st _ (exec_assign m lib f.value value x [] [] st st _
      (hx [] st) ((hvalue p vals []).assign st _ x (hself p vals st h)))
  rcases htransferable.cases with ⟨e, hshape⟩ | ⟨e, dims, hshape, valid⟩ | ⟨e, maxBound, hshape, _⟩
  · rw [hshape] at constructs
    obtain ⟨x, hx⟩ := bound_initialValue e fun s hs => constructs s (mem_structs_element hs)
    rw [t.initial_element depth f e hshape]
    exact ⟨x, hassign _ x hx⟩
  · rw [hshape] at constructs
    rw [t.initial_array depth f e dims hshape valid]
    obtain ⟨x, hx⟩ := exec_initialArray (t := t) e
      (fun s hs => constructs s (mem_structs_element hs)) f dims valid depth
    exact ⟨x, fun p vals st h => hx _ (hvalue p vals) _ st (hself p vals st h)⟩
  · rw [t.initial_sequence depth f e maxBound hshape]
    exact ⟨.list [], hassign _ _ fun env =>
      bound_listAllocation m lib e.valueType maxBound (hbound _ _ hshape) env⟩

end

end InteropGen

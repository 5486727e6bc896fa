import InteropGen.Proofs.Arrays.Rows

/-!
# Places and variables in execution

The places of a trace are those that the machine reads and writes: an index expression has the number
that the trace gives it, and an expression reads and assigns what its place says. Loop counters keep
their values through the statements of a body, which is why the numbers stay right.

* `Scope.Fits` — what a trace takes for granted; `Env.Grown` — what statements do to variables;
* `int_bound`, `number_bound` — the numbers of a trace are values of the machine;
* `eval_spot`, `assign_spot` — an expression with a place is read and assigned along its indices.
-/

set_option autoImplicit false

namespace InteropGen.CSharp

/-- What a trace takes for granted of the variables, and of the transfer struct: loop counters have
the values that it knows, and handles are null or not as it says. -/
structure Scope.Fits (sc : Scope) (env : Env) (wrapper : Value) : Prop where
  counters : ∀ name v, sc.env.lookup name = some v →
    (∃ depth, name = .counter depth) ∧ env.lookup name = some v
  handles : ∀ field handle, wrapper.field? field = some (.handle handle) →
    sc.present field = handle.isSome

/-- Whether a field of a transfer struct has a handle that is not null. -/
def Value.handlePresent (wrapper : Value) (name : String) : Bool :=
  match wrapper.field? name with
  | some (.handle address) => address.isSome
  | _ => false

/-- A method body starts with no counters, and with the handles that the transfer struct has. -/
theorem Scope.fits_start (m : Machine) (env : Env) (wrapper : Value) :
    (Scope.start m wrapper.handlePresent).Fits env wrapper where
  counters := by simp [Scope.start]
  handles field handle hfield := by simp [Scope.start, Value.handlePresent, hfield]

namespace Env

/-- What the statements of a conversion cannot change of a variable: its name, and the value of a
loop counter. -/
def fixed : Local × Value → Local × Option Value
  | (.counter depth, v) => (.counter depth, some v)
  | (name, _) => (name, none)

/-- There are new variables, none of them a loop counter, above those that were there. -/
def Grown (env env' : Env) : Prop :=
  ∃ pre, env'.map fixed = pre ++ env.map fixed ∧ ∀ depth, pre.lookup (.counter depth) = none

namespace Grown
variable {env env' env'' : Env}

theorem of_fixed (h : env'.map fixed = env.map fixed) : env.Grown env' :=
  ⟨[], h, fun _ => rfl⟩

theorem refl (env : Env) : env.Grown env := .of_fixed rfl

theorem trans (h : env.Grown env') (h' : env'.Grown env'') : env.Grown env'' := by
  obtain ⟨pre, heq, hpre⟩ := h
  obtain ⟨pre', heq', hpre'⟩ := h'
  refine ⟨pre' ++ pre, by rw [heq', heq, List.append_assoc], ?_⟩
  intro depth
  rw [List.lookup_append, hpre' depth, hpre depth]
  rfl

theorem lookup (h : env.Grown env') (depth : Nat) :
    env'.lookup (.counter depth) = env.lookup (.counter depth) := by
  have hfixed : ∀ env : Env, (env.map fixed).lookup (.counter depth) =
      (env.lookup (.counter depth)).map some := by
    intro env
    induction env with
    | nil => rfl
    | cons b rest ih =>
      obtain ⟨name, v⟩ := b
      cases name with
      | counter depth' =>
        rw [List.map_cons, fixed, List.lookup_cons, List.lookup_cons, ih]
        cases Local.counter depth == Local.counter depth' <;> rfl
      | _ => exact ih
  obtain ⟨pre, heq, hpre⟩ := h
  have hsame := hfixed env'
  rw [heq, List.lookup_append, hpre depth, Option.none_or, hfixed env] at hsame
  exact (Option.map_injective (Option.some_injective _) hsame).symm

/-- A new variable. -/
theorem push {name : Local} (hname : ∀ depth, name ≠ .counter depth) {v : Value} :
    env.Grown ((name, v) :: env) := by
  refine ⟨[fixed (name, v)], rfl, ?_⟩
  intro depth
  cases name with
  | counter depth' => exact absurd rfl (hname depth')
  | _ => rfl

/-- Leaving a block that was entered with one more variable, or with none. -/
theorem leave (new : Env) (h : Grown (new ++ env) env') : env.Grown (Env.leave env env') := by
  obtain ⟨pre, heq, _⟩ := h
  have hlength := congrArg List.length heq
  simp only [List.map_append, List.length_append, List.length_map] at hlength
  apply of_fixed
  rw [List.map_append, ← List.append_assoc] at heq
  have hpast : env'.length - env.length = (pre ++ new.map fixed).length := by
    rw [List.length_append, List.length_map]
    omega
  rw [Env.leave, List.map_drop, heq, hpast, List.drop_left]

end Grown

theorem assign?_fixed {x : Value} {env env' : Env} (h : Env.assign? .element x env = some env') :
    env'.map fixed = env.map fixed := by
  induction env generalizing env' with
  | nil => cases h
  | cons b rest ih =>
    obtain ⟨name, v⟩ := b
    rw [Env.assign?] at h
    split at h
    · rename_i heq
      cases heq
      cases h
      rfl
    · obtain ⟨rest', hrest, rfl⟩ := Option.map_eq_some_iff.mp h
      rw [List.map_cons, List.map_cons, ih hrest]

end Env

namespace Scope.Fits
variable {sc : Scope} {env env' : Env} {wrapper : Value}

theorem grown (h : sc.Fits env wrapper) (grown : env.Grown env') : sc.Fits env' wrapper where
  counters name v hlookup := by
    obtain ⟨⟨depth, rfl⟩, henv⟩ := h.counters name v hlookup
    exact ⟨⟨depth, rfl⟩, (grown.lookup depth).trans henv⟩
  handles := h.handles

theorem wrapper_eq (h : sc.Fits env wrapper) {wrapper' : Value} (heq : wrapper' = wrapper) :
    sc.Fits env wrapper' :=
  heq ▸ h

theorem round (h : sc.Fits env wrapper) (depth i : Nat) :
    (sc.round depth i).Fits ((.counter depth, .int i) :: env) wrapper where
  counters name v hlookup := by
    rw [Scope.round, List.lookup_cons] at hlookup
    rw [List.lookup_cons]
    split at hlookup
    · rename_i heq
      exact ⟨⟨depth, eq_of_beq heq⟩, hlookup⟩
    · rename_i heq
      obtain ⟨hcounter, henv⟩ := h.counters name v hlookup
      exact ⟨hcounter, henv⟩
  handles := h.handles

/-- Statements tell nothing new about counters and handles. -/
theorem after (h : sc.Fits env wrapper) (s : Stmt) : (sc.after s).Fits env wrapper := by
  have hfeed : ∀ sources, (sc.feed .element sources).Fits env wrapper := by
    intro sources
    unfold Scope.feed
    split
    · exact ⟨h.counters, h.handles⟩
    · exact h
  unfold Scope.after
  split
  · exact ⟨h.counters, h.handles⟩
  · exact ⟨h.counters, h.handles⟩
  · exact hfeed _
  · exact hfeed _
  · exact h

end Scope.Fits

namespace Value

/-- What stands at a place, with indices for each pair of brackets. -/
def along? (v : Value) (groups : List (List Nat)) : Option Value :=
  groups.foldlM (fun v indices => v.item? indices) v

/-- The value with what stands at a place replaced. -/
def replace? (v x : Value) (groups : List (List Nat)) : Option Value :=
  putAlong (fun v indices => v.item? indices) (fun x v indices => setItem? x indices v) x v groups

theorem along?_append (v : Value) (groups : List (List Nat)) (indices : List Nat) :
    v.along? (groups ++ [indices]) = (v.along? groups).bind (·.item? indices) := by
  simp [along?]

theorem put?_eq_none {x v : Value} {indices : List Nat} (h : v.at? indices = none) :
    put? x indices v = none := by
  induction indices generalizing v with
  | nil => cases h
  | cons i inner ih =>
    cases v with
    | array rank items =>
      rw [at?] at h
      rw [put?]
      split
      · rename_i hrank
        rw [if_pos hrank] at h
        cases hitem : items[i]? with
        | none => rfl
        | some item =>
          rw [hitem] at h
          simp [ih h]
      · rfl
    | _ => rfl

/-- Only an item that is there can be replaced. -/
theorem setItem?_eq_none {x v : Value} {indices : List Nat} (h : v.item? indices = none) :
    setItem? x indices v = none := by
  cases v with
  | list items =>
    match indices with
    | [] | _ :: _ :: _ => rfl
    | [i] => simpa [item?, setItem?] using h
  | _ => exact put?_eq_none h

theorem replace?_append (v x : Value) (groups : List (List Nat)) (indices : List Nat) :
    v.replace? x (groups ++ [indices]) = (v.along? groups).bind fun inner =>
      (setItem? x indices inner).bind fun changed => v.replace? changed groups := by
  rw [replace?, putAlong_append, Option.bind_eq_bind, Option.bind_assoc]
  congr 1
  funext inner
  cases hitem : inner.item? indices with
  | none => simp [putAlong, hitem, setItem?_eq_none hitem]
  | some item => simp [putAlong, hitem, replace?]

end Value

namespace State
variable (st : State) (owner : Owner) (name : String)

/-- What stands at a place of an owner of fields. -/
def at? (groups : List (List Nat)) : Option Value :=
  ((st.get owner).field? name).bind (·.along? groups)

/-- The state with what stands at a place replaced. -/
def put? (x : Value) (groups : List (List Nat)) : Option State :=
  (((st.get owner).field? name).bind (·.replace? x groups)).bind fun changed =>
    (Value.setField? name changed (st.get owner)).map (st.set owner)

theorem at?_append (groups : List (List Nat)) (indices : List Nat) :
    st.at? owner name (groups ++ [indices]) =
      (st.at? owner name groups).bind (·.item? indices) := by
  rw [at?, at?, Option.bind_assoc]
  congr 1
  funext v
  exact v.along?_append groups indices

theorem put?_append (x : Value) (groups : List (List Nat)) (indices : List Nat) :
    st.put? owner name x (groups ++ [indices]) = (st.at? owner name groups).bind fun inner =>
      (Value.setItem? x indices inner).bind fun changed => st.put? owner name changed groups := by
  cases hfield : (st.get owner).field? name with
  | none => simp [put?, at?, hfield]
  | some v => simp [put?, at?, hfield, Value.replace?_append, Option.bind_assoc]

/-- Replacing in the object leaves the transfer struct and the other fields alone. -/
theorem put?_value {st st' : State} {field : String} {x : Value} {groups : List (List Nat)}
    (h : st.put? .value field x groups = some st') :
    st'.wrapper = st.wrapper ∧
      ∀ name, name ≠ field → st'.self.field? name = st.self.field? name := by
  unfold put? at h
  rw [get] at h
  cases hself : st.self with
  | record path fields =>
    simp only [hself, Value.field?, Value.setField?, Option.bind_some, Option.map_some,
      Option.bind_eq_some_iff, Option.some.injEq] at h
    obtain ⟨changed, _, rfl⟩ := h
    refine ⟨rfl, ?_⟩
    intro name hname
    simp [set, Value.field?, hname]
  | _ => simp [hself, Value.field?] at h

end State

section
variable (m : Machine) (lib : Library) {sc : Scope} {env : Env} {wrapper : Value}


mutual

/-- The number of an expression is its value, if those of variables are. -/
theorem int_bound {vars : Local → Option Int}
    (hvars : ∀ name n, vars name = some n → Bound m lib env (.var name) (.int n)) (e : Expr) (n : Int)
    (h : e.int? vars = some n) : Bound m lib env e (.int n) := by
  cases e with
  | nat k =>
    simp only [Expr.int?, Option.ite_none_right_eq_some, Option.some.injEq] at h
    obtain ⟨hfits, rfl⟩ := h
    exact bound_nat m lib env k (by have := hfits.2; omega)
  | var name => exact hvars name n h
  | paren inner => exact bound_paren m lib (int_bound hvars inner n h)
  | binary op left right =>
    cases op with
    | times =>
      simp only [Expr.int?, Option.bind_eq_bind, Option.bind_eq_some_iff] at h
      obtain ⟨a, ha, b, hb, hproduct⟩ := h
      cases hproduct
      exact bound_product m lib (int_bound hvars left a ha) (int_bound hvars right b hb)
    | _ => cases h
  | sum terms =>
    intro st
    obtain ⟨values, hvalues, hsum⟩ := sumInt_bound hvars terms 0 n h st
    simp [Expr.eval, hvalues, hsum]
  | _ => cases h

theorem sumInt_bound {vars : Local → Option Int}
    (hvars : ∀ name n, vars name = some n → Bound m lib env (.var name) (.int n))
    (terms : List Expr) (before n : Int) (h : sumInt? vars before terms = some n) (st : State) :
    ∃ values, evalAll m lib env terms st = some (values, st) ∧
      Value.sum? before values = some (.int n) := by
  cases terms with
  | nil =>
    cases h
    exact ⟨[], rfl, rfl⟩
  | cons e rest =>
    simp only [sumInt?, Option.bind_eq_bind, Option.bind_eq_some_iff] at h
    obtain ⟨k, hk, hrest⟩ := h
    obtain ⟨values, hvalues, hsum⟩ := sumInt_bound hvars rest (int32 (before + k)) n hrest st
    exact ⟨.int k :: values,
      evalAll_cons m lib e rest env st st st _ _ (int_bound hvars e k hk st) hvalues, hsum⟩

end

/-- The number of an index expression is its value. -/
theorem number_bound (fits : sc.Fits env wrapper) (e : Expr) (n : Nat)
    (h : e.number? sc.env = some n) : Bound m lib env e (.int n) := by
  simp only [Expr.number?, Option.bind_eq_bind, Option.bind_eq_some_iff] at h
  obtain ⟨k, hk, hindex⟩ := h
  have hvars : ∀ name i, sc.env.int? name = some i → Bound m lib env (.var name) (.int i) := by
    intro name i hi
    simp only [Env.int?, Option.bind_eq_bind, Option.bind_eq_some_iff] at hi
    obtain ⟨v, hlookup, hint⟩ := hi
    obtain ⟨⟨depth, rfl⟩, henv⟩ := fits.counters name v hlookup
    cases v <;> cases hint
    exact bound_local m lib (by simp) henv
  have hbound := int_bound m lib hvars e k hk
  simp only [Value.index?, Option.ite_none_right_eq_some, Option.some.injEq] at hindex
  obtain ⟨hnonneg, rfl⟩ := hindex
  rwa [Int.toNat_of_nonneg hnonneg]

variable (fits : sc.Fits env wrapper)

include fits

theorem numbers_bound {indices : List Expr} {numbers : List Nat}
    (h : indices.mapM (Expr.number? sc.env) = some numbers) (st : State) :
    evalAll m lib env indices st = some (numbers.map fun (n : Nat) => .int n, st) := by
  apply evalAll_bound
  rw [List.forall₂_map_right_iff]
  exact ((option_mapM_eq_some_iff _ _ _).mp h).imp (number_bound m lib fits)

omit fits in
/-- The place of an item, by that of the array. -/
theorem spot_index {base : Expr} {indices : List Expr} {owner : Owner} {name : String}
    {groups : List (List Nat)}
    (h : (Expr.index base indices).spot? sc = some (.element owner name groups)) :
    ∃ outer numbers, base.spot? sc = some (.element owner name outer) ∧
      indices.mapM (Expr.number? sc.env) = some numbers ∧ groups = outer ++ [numbers] := by
  simp only [Expr.spot?, Option.bind_eq_bind, Option.bind_eq_some_iff] at h
  obtain ⟨numbers, hnumbers, place, hbase, hitem⟩ := h
  cases place with
  | element owner' name' outer =>
    cases hitem
    exact ⟨outer, numbers, hbase, hnumbers, rfl⟩
  | slot field type offset => cases hitem

omit fits in
/-- Only fields and their items are places of an owner. -/
theorem spot_cases {e : Expr} {owner : Owner} {name : String} {groups : List (List Nat)}
    (h : e.spot? sc = some (.element owner name groups)) :
    (e = .field owner name ∧ groups = []) ∨ ∃ base indices, e = .index base indices := by
  unfold Expr.spot? at h
  split at h
  · cases h
    exact .inl ⟨rfl, rfl⟩
  · exact .inr ⟨_, _, rfl⟩
  · simp only [Option.bind_eq_bind, Option.bind_eq_some_iff] at h
    obtain ⟨_, _, _, _, hslot⟩ := h
    cases hslot
  · cases h

omit fits in
/-- A slot is no place for an assignment. -/
theorem assign_slot (e : Expr) {field : String} {type : Ty} {offset : Int}
    (h : e.spot? sc = some (.slot field type offset)) (x : Value) (st : State) :
    e.assign m lib x env st = none := by
  unfold Expr.spot? at h
  split at h
  · cases h
  · simp only [Option.bind_eq_bind, Option.bind_eq_some_iff] at h
    obtain ⟨_, _, place, _, hplace⟩ := h
    cases place <;> cases hplace
  · rfl
  · cases h

/-- A place is read along its indices. -/
theorem eval_spot (e : Expr) {owner : Owner} {name : String} {groups : List (List Nat)}
    (h : e.spot? sc = some (.element owner name groups)) (st : State) :
    e.eval m lib env st = (st.at? owner name groups).map fun v => (v, st) := by
  rcases spot_cases h with ⟨rfl, rfl⟩ | ⟨base, indices, rfl⟩
  · simp [Expr.eval, State.at?, Value.along?]
  · obtain ⟨outer, numbers, hbase, hnumbers, rfl⟩ := spot_index h
    have houter := eval_spot base hbase st
    have hindices := numbers_bound m lib fits hnumbers st
    rw [Expr.eval, houter, State.at?_append]
    cases st.at? owner name outer with
    | none => rfl
    | some v => simp only [Option.map_some, Option.bind_eq_bind, Option.bind_some, hindices,
        Value.mapM_index?]

/-- A place is assigned along its indices. -/
theorem assign_spot (e : Expr) {owner : Owner} {name : String} {groups : List (List Nat)}
    (h : e.spot? sc = some (.element owner name groups)) (x : Value) (st : State) :
    e.assign m lib x env st = (st.put? owner name x groups).map fun st' => (env, st') := by
  rcases spot_cases h with ⟨rfl, rfl⟩ | ⟨base, indices, rfl⟩
  · rw [Expr.assign]
    cases hget : st.get owner <;>
      simp [State.put?, hget, Value.field?, Value.setField?, Value.replace?, putAlong]
  · obtain ⟨outer, numbers, hbase, hnumbers, rfl⟩ := spot_index h
    have houter := eval_spot m lib fits base hbase st
    have hindices := numbers_bound m lib fits hnumbers st
    rw [Expr.assign, houter, State.put?_append]
    cases st.at? owner name outer with
    | none => rfl
    | some v =>
      simp only [Option.map_some, Option.bind_eq_bind, Option.bind_some, hindices,
        Value.mapM_index?]
      cases Value.setItem? x numbers v with
      | none => rfl
      | some changed => exact assign_spot base hbase changed st

end

end InteropGen.CSharp

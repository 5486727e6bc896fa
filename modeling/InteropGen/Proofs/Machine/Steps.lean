import InteropGen.Proofs.Machine.Run

/-!
# Rules of execution

One rule for each kind of statement, so that later modules do not open the evaluator. A loop is
taken by an invariant on the number of rounds (`exec_countUp`), a nest of loops by an invariant on
the row-major position (`exec_loopNest`).

* `Bound` — an expression whose value no statement changes, as a counter or a size;
* `PlaceAt` — an expression that reads and writes one spot of an object or a transfer struct.
-/

set_option autoImplicit false

namespace InteropGen.CSharp

theorem Env.leave_append (env pre : Env) : Env.leave env (pre ++ env) = env := by
  simp [Env.leave]

@[simp] theorem State.get_set (st : State) (owner : Owner) (x : Value) :
    (st.set owner x).get owner = x := by
  cases owner <;> rfl

@[simp] theorem State.set_set (st : State) (owner : Owner) (x y : Value) :
    (st.set owner x).set owner y = st.set owner y := by
  cases owner <;> rfl

section
variable (m : Machine) (lib : Library)

attribute [local simp] Expr.eval Expr.assign Expr.run Stmt.exec execAll

theorem execAll_cons (s : Stmt) (rest : List Stmt) (env env' : Env) (st st' : State)
    (h : s.exec m lib env st = some (env', st')) :
    execAll m lib (s :: rest) env st = execAll m lib rest env' st' := by
  simp [h]

theorem execAll_append (a b : List Stmt) (env env' : Env) (st st' : State)
    (h : execAll m lib a env st = some (env', st')) :
    execAll m lib (a ++ b) env st = execAll m lib b env' st' := by
  induction a generalizing env st with
  | nil =>
    simp only [execAll, Option.some.injEq, Prod.mk.injEq] at h
    rw [h.1, h.2, List.nil_append]
  | cons s rest ih =>
    simp only [execAll, Option.bind_eq_bind, Option.bind_eq_some_iff] at h
    obtain ⟨⟨env₁, st₁⟩, hs, hrest⟩ := h
    rw [List.cons_append, execAll_cons m lib s _ env env₁ st st₁ hs]
    exact ih env₁ st₁ hrest

theorem exec_assign (place value : Expr) (v : Value) (env env' : Env) (st st₁ st' : State)
    (hvalue : value.eval m lib env st = some (v, st₁))
    (hplace : place.assign m lib v env st₁ = some (env', st')) :
    (Stmt.assign place value).exec m lib env st = some (env', st') := by
  simp [hvalue, hplace]

theorem exec_declare (type : Ty) (name : Local) (value : Expr) (v : Value) (env : Env)
    (st st' : State) (hvalue : value.eval m lib env st = some (v, st')) :
    (Stmt.declare type name value).exec m lib env st = some ((name, v) :: env, st') := by
  simp [hvalue]

theorem exec_block (body : List Stmt) (env pre : Env) (st st' : State)
    (h : execAll m lib body env st = some (pre ++ env, st')) :
    (Stmt.block body).exec m lib env st = some (env, st') := by
  simp [h, Env.leave_append]

theorem exec_when_true (condition : Expr) (body : List Stmt) (env pre : Env) (st st' : State)
    (hcondition : condition.eval m lib env st = some (.bool true, st))
    (h : execAll m lib body env st = some (pre ++ env, st')) :
    (Stmt.when condition body).exec m lib env st = some (env, st') := by
  simp [hcondition, h, Env.leave_append]

theorem exec_when_false (condition : Expr) (body : List Stmt) (env : Env) (st : State)
    (hcondition : condition.eval m lib env st = some (.bool false, st)) :
    (Stmt.when condition body).exec m lib env st = some (env, st) := by
  simp [hcondition]

theorem evalAll_cons (e : Expr) (es : List Expr) (env : Env) (st st₁ st₂ : State) (v : Value)
    (vs : List Value) (he : e.eval m lib env st = some (v, st₁))
    (hes : evalAll m lib env es st₁ = some (vs, st₂)) :
    evalAll m lib env (e :: es) st = some (v :: vs, st₂) := by
  simp [evalAll, he, hes]

theorem eval_call (f : Function) (arguments : List Expr) (env : Env) (st st₁ : State)
    (vs : List Value) (result : Option (Value × State))
    (harguments : evalAll m lib env arguments st = some (vs, st₁))
    (hresult : m.call? f vs st₁ = result) :
    (Expr.call f arguments).eval m lib env st = result := by
  simp [harguments, hresult]

theorem exec_run_add (item : Expr) (h : Option Address) (env : Env) (st : State)
    (hitem : item.eval m lib env st = some (.handle h, st)) :
    (Stmt.run (.invoke (.var .toRelease) .add [item])).exec m lib env st =
      some (env, { st with released := st.released ++ [h] }) := by
  simp [hitem]

theorem exec_run_toNative (receiver place : Expr) (path : String) (fields : String → Value)
    (w : Value) (env env₁ env₂ : Env) (st callee st₁ st₂ : State)
    (hreceiver : receiver.eval m lib env st = some (.record path fields, st))
    (hplace : place.eval m lib env st = some (w, st))
    (hcall : lib.call path .toNative { st with self := .record path fields, wrapper := w } =
      some callee)
    (hassign : place.assign m lib callee.wrapper env (Machine.returning st callee) =
      some (env₁, st₁))
    (hback : receiver.assign m lib callee.self env₁ st₁ = some (env₂, st₂)) :
    (Stmt.run (.invoke receiver .toNative [.byRef place, .var .toRelease])).exec m lib env st =
      some (env₂, st₂) := by
  simp [hreceiver, hplace, Machine.invoke?, hcall, hassign, hback]

theorem exec_run_fromNative (receiver native : Expr) (path : String) (fields : String → Value)
    (w : Value) (env env₁ : Env) (st callee st₁ : State)
    (hreceiver : receiver.eval m lib env st = some (.record path fields, st))
    (hnative : native.eval m lib env st = some (w, st))
    (hcall : lib.call path .fromNative { st with self := .record path fields, wrapper := w } =
      some callee)
    (hassign : receiver.assign m lib callee.self env (Machine.returning st callee) =
      some (env₁, st₁)) :
    (Stmt.run (.invoke receiver .fromNative [native])).exec m lib env st = some (env₁, st₁) := by
  simp [hreceiver, hnative, Machine.invoke?, hcall, hassign]

/-- A call that changes no place runs as it is evaluated. -/
theorem exec_run_call_eq (f : Function) (arguments : List Expr) (env : Env) (st : State)
    (hf : ∀ type, f ≠ .releaseNative type) (hcopy : f ≠ .arrayCopy) (hclear : f ≠ .arrayClear) :
    (Stmt.run (.call f arguments)).exec m lib env st =
      ((Expr.call f arguments).eval m lib env st).map fun result => (env, result.2) := by
  rw [Option.map_eq_bind]
  cases f with
  | releaseNative type => exact absurd rfl (hf type)
  | arrayCopy => exact absurd rfl hcopy
  | arrayClear => exact absurd rfl hclear
  | _ => rfl

theorem exec_run_call (f : Function) (arguments : List Expr) (v : Value) (env : Env)
    (st st' : State) (hcall : (Expr.call f arguments).eval m lib env st = some (v, st'))
    (hf : ∀ type, f ≠ .releaseNative type) (hcopy : f ≠ .arrayCopy) (hclear : f ≠ .arrayClear) :
    (Stmt.run (.call f arguments)).exec m lib env st = some (env, st') := by
  rw [exec_run_call_eq m lib f arguments env st hf hcopy hclear, hcall]
  rfl

/-- A copy of a whole array into one of the same length. -/
theorem exec_run_arrayCopy (source target length : Expr) (items old : List Value)
    (env : Env) (st : State) (result : Option (Env × State)) (hlength : items.length = old.length)
    (hsource : source.eval m lib env st = some (.array 1 items, st))
    (htarget : target.eval m lib env st = some (.array 1 old, st))
    (hcount : length.eval m lib env st = some (.int items.length, st))
    (hassign : target.assign m lib (.array 1 items) env st = result) :
    (Stmt.run (.call .arrayCopy [source, target, length])).exec m lib env st = result := by
  simp [hsource, htarget, hcount, ← hlength]
  rw [hlength, List.drop_length, List.append_nil, hassign]

/-- An item appended to the list in a field. -/
theorem exec_run_append (owner : Owner) (name : String) (item : Expr) (items : List Value)
    (x : Value) (env : Env) (st : State) (result : Option (Env × State))
    (hlist : (Expr.field owner name).eval m lib env st = some (.list items, st))
    (hitem : item.eval m lib env st = some (x, st))
    (hassign : (Expr.field owner name).assign m lib (.list (items ++ [x])) env st = result) :
    (Stmt.run (.invoke (.field owner name) .add [item])).exec m lib env st = result := by
  simp only [Stmt.exec, Expr.run, hlist, hitem, Option.bind_eq_bind, Option.bind_some, hassign]

/-- The expression has the value whatever the state is. -/
def Bound (env : Env) (e : Expr) (v : Value) : Prop :=
  ∀ st, e.eval m lib env st = some (v, st)

/-- The expression reads and writes one spot of an owner; `around` puts a value there. -/
structure PlaceAt (env : Env) (e : Expr) (owner : Owner) (around : Value → Value) : Prop where
  eval : ∀ st x, st.get owner = around x → e.eval m lib env st = some (x, st)
  assign : ∀ st x y, st.get owner = around x →
    e.assign m lib y env st = some (env, st.set owner (around y))

/-- A field of an object or of a transfer struct is a place. -/
theorem placeAt_field (env : Env) (owner : Owner) (name path : String) (fields : String → Value) :
    PlaceAt m lib env (.field owner name) owner fun x =>
      .record path (Function.update fields name x) where
  eval := by
    intro st x hst
    simp [hst, Value.field?]
  assign := by
    intro st x y hst
    simp [hst, Value.setField?]

/-- One round of a loop that runs to `limit`. -/
def loopRound (depth : Nat) (bound : Expr) (body : List Stmt) (limit : Int) (before : Env × State)
    (i : Nat) : Option (Env × State) := do
  let (inner, st) ← execAll m lib body ((.counter depth, .int i) :: before.1) before.2
  let env := Env.leave before.1 inner
  let (v, st) ← bound.eval m lib env st
  if v.int? = some limit then some (env, st) else none

theorem exec_countUp_eq (depth n : Nat) (bound : Expr) (body : List Stmt) (env : Env)
    (st st' : State) (hbound : bound.eval m lib env st = some (.int n, st')) :
    (Stmt.countUp depth bound body).exec m lib env st =
      (List.range n).foldlM (loopRound m lib depth bound body n) (env, st') := by
  rw [Stmt.exec, hbound]
  rfl

/-- A loop keeps its invariant, which may speak of the number of rounds done, and runs to its
end. -/
theorem exec_countUp (Inv : Nat → State → Prop) (depth n : Nat) (bound : Expr) (body : List Stmt)
    (env : Env) (st : State) (hbound : Bound m lib env bound (.int n))
    (hbody : ∀ i < n, ∀ st, Inv i st → ∃ pre st',
      execAll m lib body ((.counter depth, .int i) :: env) st =
        some (pre ++ (.counter depth, .int i) :: env, st') ∧ Inv (i + 1) st')
    (hstart : Inv 0 st) :
    ∃ st', (Stmt.countUp depth bound body).exec m lib env st = some (env, st') ∧ Inv n st' := by
  have hrounds : ∀ k ≤ n, ∃ st',
      (List.range k).foldlM (loopRound m lib depth bound body n) (env, st) = some (env, st') ∧
        Inv k st' := by
    intro k hk
    induction k with
    | zero => exact ⟨st, rfl, hstart⟩
    | succ k ih =>
      obtain ⟨st₁, hfold, hinv⟩ := ih (by omega)
      obtain ⟨pre, st₂, hexec, hnext⟩ := hbody k (by omega) st₁ hinv
      have hleave : Env.leave env (pre ++ (.counter depth, .int k) :: env) = env := by
        rw [List.append_cons]
        exact Env.leave_append env _
      refine ⟨st₂, ?_, hnext⟩
      rw [List.range_succ, List.foldlM_append, hfold]
      simp only [loopRound, Option.bind_eq_bind, Option.bind_some, List.foldlM_cons,
        List.foldlM_nil, hexec, hleave, hbound st₂, Value.int?, if_true]
      rfl
  obtain ⟨st', hfold, hinv⟩ := hrounds n (Nat.le_refl n)
  refine ⟨st', ?_, hinv⟩
  rw [exec_countUp_eq m lib depth n bound body env st st (hbound st)]
  exact hfold

end

end InteropGen.CSharp

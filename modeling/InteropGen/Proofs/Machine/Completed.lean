import InteropGen.Proofs.Machine.Nest

/-!
# Executions that came to their end

What a result says about the statements that led to it. The rules are those of execution read
backwards: they are derived from a successful run and suppose nothing about its parts.

* `execAll_cons_some`, `execAll_append_some`, `exec_block_some` — the run up to a point, and the run
  from there;
* `countUp_of_exec`, `loopNest_of_exec` — an invariant that every round keeps which comes to its end
  holds after the loop.
-/

set_option autoImplicit false

namespace InteropGen.CSharp

section
variable (m : Machine) (lib : Library)

theorem execAll_cons_some {s : Stmt} {rest : List Stmt} {env : Env} {st : State}
    {result : Env × State} (h : execAll m lib (s :: rest) env st = some result) :
    ∃ env' st', s.exec m lib env st = some (env', st') ∧
      execAll m lib rest env' st' = some result := by
  simp only [execAll, Option.bind_eq_bind, Option.bind_eq_some_iff] at h
  obtain ⟨⟨env', st'⟩, hfirst, hrest⟩ := h
  exact ⟨env', st', hfirst, hrest⟩

theorem execAll_append_some {a b : List Stmt} {env : Env} {st : State} {result : Env × State}
    (h : execAll m lib (a ++ b) env st = some result) :
    ∃ env' st', execAll m lib a env st = some (env', st') ∧
      execAll m lib b env' st' = some result := by
  induction a generalizing env st with
  | nil => exact ⟨env, st, rfl, h⟩
  | cons s rest ih =>
    obtain ⟨env₁, st₁, hs, hrest⟩ := execAll_cons_some m lib h
    obtain ⟨env', st', hmiddle, hlast⟩ := ih hrest
    exact ⟨env', st', (execAll_cons m lib s rest env env₁ st st₁ hs).trans hmiddle, hlast⟩

theorem exec_block_some {body : List Stmt} {env : Env} {st : State} {result : Env × State}
    (h : (Stmt.block body).exec m lib env st = some result) :
    ∃ inner, execAll m lib body env st = some (inner, result.2) := by
  simp only [Stmt.exec, Option.bind_eq_bind, Option.bind_eq_some_iff] at h
  obtain ⟨⟨inner, st'⟩, hbody, hresult⟩ := h
  cases hresult
  exact ⟨inner, hbody⟩

/-- The object and the transfer struct of a call of `ToNative` that has a result, and the call
itself. -/
theorem exec_run_toNative_some {receiver place : Expr} {path : String} {fields : String → Value}
    {w : Value} {env : Env} {st : State} {result : Env × State}
    (hreceiver : receiver.eval m lib env st = some (.record path fields, st))
    (hplace : place.eval m lib env st = some (w, st))
    (h : (Stmt.run (.invoke receiver .toNative [.byRef place, .var .toRelease])).exec m lib env st =
      some result) :
    ∃ callee, lib.call path .toNative { st with self := .record path fields, wrapper := w } =
      some callee := by
  simp only [Stmt.exec, Expr.run, hreceiver, hplace, Option.bind_eq_bind, Option.bind_some,
    Machine.invoke?, Option.bind_eq_some_iff] at h
  obtain ⟨callee, hcall, _⟩ := h
  exact ⟨callee, hcall⟩

/-- The invariant of a loop that comes to its end. -/
theorem countUp_of_exec (Inv : Nat → State → Prop) (depth n : Nat) (bound : Expr)
    (body : List Stmt) (env env' : Env) (st st' : State) (hbound : Bound m lib env bound (.int n))
    (hbody : ∀ i < n, ∀ st inner st', Inv i st →
      execAll m lib body ((.counter depth, .int i) :: env) st = some (inner, st') →
      (∃ pre, inner = pre ++ (.counter depth, .int i) :: env) ∧ Inv (i + 1) st')
    (hstart : Inv 0 st) (h : (Stmt.countUp depth bound body).exec m lib env st = some (env', st')) :
    env' = env ∧ Inv n st' := by
  rw [exec_countUp_eq m lib depth n bound body env st st (hbound st)] at h
  have hrounds : ∀ k ≤ n, ∀ env' st',
      (List.range k).foldlM (loopRound m lib depth bound body n) (env, st) = some (env', st') →
        env' = env ∧ Inv k st' := by
    intro k hk
    induction k with
    | zero =>
      intro env' st' hfold
      cases hfold
      exact ⟨rfl, hstart⟩
    | succ k ih =>
      intro env' st' hfold
      rw [List.range_succ, List.foldlM_append, Option.bind_eq_bind, Option.bind_eq_some_iff] at hfold
      obtain ⟨⟨env₁, st₁⟩, hbefore, hround⟩ := hfold
      obtain ⟨rfl, hinv⟩ := ih (by omega) env₁ st₁ hbefore
      simp only [List.foldlM_cons, List.foldlM_nil, loopRound, Option.bind_eq_bind,
        Option.bind_eq_some_iff] at hround
      obtain ⟨_, ⟨⟨inner, st₂⟩, hexec, ⟨v, st₃⟩, hagain, hsame⟩, hresult⟩ := hround
      obtain ⟨⟨pre, rfl⟩, hnext⟩ := hbody k (by omega) st₁ inner st₂ hinv hexec
      have hleave : Env.leave env₁ (pre ++ (.counter depth, .int k) :: env₁) = env₁ := by
        rw [List.append_cons]
        exact Env.leave_append env₁ _
      rw [hleave] at hagain hsame
      cases hagain.symm.trans (hbound st₂)
      simp only [Value.int?, if_true, Option.some.injEq] at hsame
      subst hsame
      cases hresult
      exact ⟨rfl, hnext⟩
  exact hrounds n (Nat.le_refl n) env' st' h

/-- The invariant of a nest without row allocations that comes to its end, inside loops that have
brought it to position `start`. -/
theorem loopNestFrom_of_exec (Inv : Nat → State → Prop) (body : List Expr → List Stmt)
    (dims : List Nat) (hdims : ∀ d ∈ dims, d ≤ 2147483647) (depth : Nat) (env env' : Env)
    (outer : List Expr) (o : List Nat) (start : Nat) (st st' : State)
    (houter : Counting depth env outer o)
    (hbody : ∀ inner, InBounds dims inner → ∀ env' counters,
      Counting (depth + dims.length) env' counters (o ++ inner) → env.SameLocals env' →
      ∀ st last st', Inv (start + flat dims inner) st →
        execAll m lib (body counters) env' st = some (last, st') →
        (∃ pre, last = pre ++ env') ∧ Inv (start + flat dims inner + 1) st')
    (hstart : Inv start st)
    (h : execAll m lib (loopNestFrom none body depth outer dims) env st = some (env', st')) :
    (∃ pre, env' = pre ++ env) ∧ Inv (start + dims.prod) st' := by
  induction dims generalizing depth env env' outer o start st st' with
  | nil =>
    exact hbody [] .nil env outer (by simpa using houter) (.refl env) st env' st' hstart h
  | cons d rest ih =>
    have hround : ∀ i < d, ∀ st inner st', Inv (start + i * rest.prod) st →
        execAll m lib (loopNestFrom none body (depth + 1) (outer ++ [counter depth]) rest)
          ((.counter depth, .int i) :: env) st = some (inner, st') →
        (∃ pre, inner = pre ++ (.counter depth, .int i) :: env) ∧
          Inv (start + (i + 1) * rest.prod) st' := by
      intro i hi st inner st' hinv hexec
      have hrow := ih (fun x hx => hdims x (by simp [hx])) (depth + 1)
        ((.counter depth, .int i) :: env) inner (outer ++ [counter depth]) (o ++ [i])
        (start + i * rest.prod) st st' (houter.push i)
      rw [Nat.succ_mul, ← Nat.add_assoc]
      refine hrow ?_ hinv hexec
      intro idx hidx env' counters hcounting hlocals st last st' hinv hexec
      have hposition : start + i * rest.prod + flat rest idx =
          start + flat (d :: rest) (i :: idx) := by
        rw [flat_cons, Nat.add_assoc]
      have hdepth : depth + (d :: rest).length = depth + 1 + rest.length := by
        simp only [List.length_cons]
        omega
      rw [hposition] at hinv ⊢
      refine hbody (i :: idx) (inBounds_cons.mpr ⟨hi, hidx⟩) env' counters ?_ hlocals.of_push st last
        st' hinv hexec
      rw [hdepth, List.append_cons]
      exact hcounting
    rw [loopNestFrom, RowAllocation.atLevel, List.nil_append] at h
    obtain ⟨env₁, st₁, hloop, hnil⟩ := execAll_cons_some m lib h
    cases hnil
    obtain ⟨rfl, hend⟩ := countUp_of_exec m lib (fun i => Inv (start + i * rest.prod)) depth d (.nat d)
      _ env env' st st' (bound_nat m lib env d (hdims d (by simp))) hround (by simpa using hstart) hloop
    exact ⟨⟨[], rfl⟩, by rwa [List.prod_cons]⟩

/-- The invariant of a nest without row allocations that comes to its end. -/
theorem loopNest_of_exec (Inv : Nat → State → Prop) (body : List Expr → List Stmt)
    (dims : List Nat) (valid : ValidDims dims) (depth : Nat) (env env' : Env) (st st' : State)
    (hbody : ∀ idx, InBounds dims idx → ∀ env' counters,
      Counting (depth + dims.length) env' counters idx → env.SameLocals env' →
      ∀ st last st', Inv (flat dims idx) st →
        execAll m lib (body counters) env' st = some (last, st') →
        (∃ pre, last = pre ++ env') ∧ Inv (flat dims idx + 1) st')
    (hstart : Inv 0 st)
    (h : execAll m lib (loopNest depth dims none body) env st = some (env', st')) :
    Inv dims.prod st' := by
  have hend := loopNestFrom_of_exec m lib Inv body dims valid.dim_le depth env env' [] [] 0 st st'
    (.nil depth env) (by simpa using hbody) hstart h
  rw [Nat.zero_add] at hend
  exact hend.2

end

end InteropGen.CSharp

import InteropGen.Proofs.Machine.Steps

/-!
# Loop nests in execution

The body of a loop nest runs once for each index tuple, in row-major order, with counters that stand
for the tuple.

* `exec_loopNest` — a nest keeps an invariant on the row-major position;
* `bound_flatIndex` — `flatIndex` is that position, without overflow.
-/

set_option autoImplicit false

namespace InteropGen.CSharp

/-- The variables that are no loop counters are the same. -/
def Env.SameLocals (env env' : Env) : Prop :=
  ∀ name, (∀ j, name ≠ .counter j) → env'.lookup name = env.lookup name

theorem Env.SameLocals.refl (env : Env) : env.SameLocals env := fun _ _ => rfl

theorem Env.SameLocals.push {env env' : Env} (h : env.SameLocals env') (depth : Nat) (v : Value) :
    env.SameLocals ((.counter depth, v) :: env') := by
  intro name hname
  have hne : (name == Local.counter depth) = false := by
    rw [beq_eq_false_iff_ne]
    exact hname depth
  rw [List.lookup_cons, hne]
  exact h name hname

theorem Env.SameLocals.of_push {env env' : Env} {depth : Nat} {v : Value}
    (h : Env.SameLocals ((.counter depth, v) :: env) env') : env.SameLocals env' := by
  intro name hname
  rw [h name hname]
  exact (Env.SameLocals.refl env).push depth v name hname

/-- The expressions are counters of loops outside a depth and stand for the indices. -/
def Counting (depth : Nat) (env : Env) (counters : List Expr) (idx : List Nat) : Prop :=
  List.Forall₂
    (fun e i => ∃ j < depth, e = counter j ∧ env.lookup (.counter j) = some (.int (i : Nat)))
    counters idx

theorem Counting.nil (depth : Nat) (env : Env) : Counting depth env [] [] :=
  List.Forall₂.nil

/-- One loop further in. -/
theorem Counting.push {depth : Nat} {env : Env} {counters : List Expr} {idx : List Nat}
    (h : Counting depth env counters idx) (i : Nat) :
    Counting (depth + 1) ((.counter depth, .int i) :: env) (counters ++ [counter depth])
      (idx ++ [i]) := by
  induction h with
  | nil => exact .cons ⟨depth, by omega, rfl, by simp⟩ .nil
  | cons hhead _ ih =>
    obtain ⟨j, hj, rfl, hlookup⟩ := hhead
    have hne : (Local.counter j == Local.counter depth) = false := by
      rw [beq_eq_false_iff_ne]
      intro heq
      have : j = depth := by injection heq
      omega
    refine .cons ⟨j, by omega, rfl, ?_⟩ ih
    rw [List.lookup_cons, hne]
    exact hlookup

section
variable (m : Machine) (lib : Library)

theorem bound_counter {env : Env} {j i : Nat}
    (h : env.lookup (.counter j) = some (.int (i : Nat))) :
    Bound m lib env (counter j) (.int i) := by
  intro st
  simp [counter, Expr.eval, h]

theorem bound_nat (env : Env) (n : Nat) (h : n ≤ 2147483647) :
    Bound m lib env (.nat n) (.int n) := by
  intro st
  have hfits : InInt32 n := by
    unfold InInt32
    omega
  simp [Expr.eval, hfits]

theorem bound_paren {env : Env} {e : Expr} {v : Value} (h : Bound m lib env e v) :
    Bound m lib env (.paren e) v := h

theorem bound_product {env : Env} {a b : Expr} {x y : Int} (ha : Bound m lib env a (.int x))
    (hb : Bound m lib env b (.int y)) :
    Bound m lib env (.binary .times a b) (.int (int32 (x * y))) := by
  intro st
  simp [Expr.eval, ha st, hb st, Machine.operate?]

theorem bound_times {env : Env} {a b : Expr} {x y : Nat} (ha : Bound m lib env a (.int x))
    (hb : Bound m lib env b (.int y)) (hfits : x * y ≤ 2147483647) :
    Bound m lib env (.binary .times a b) (.int (x * y : Nat)) := by
  have hproduct := bound_product m lib ha hb
  rwa [← Int.natCast_mul, int32_natCast hfits] at hproduct

/-- An offset past a leading count. -/
theorem bound_sumPastCount {env : Env} {e : Expr} {n : Int} (h : Bound m lib env e (.int n)) :
    Bound m lib env (.sum [.constant .sizeOfInt, e]) (.int (int32 (4 + n))) := by
  intro st
  have hfour : int32 4 = 4 := by decide
  simp [Expr.eval, evalAll, h st, Machine.constant, Value.sum?, hfour]

theorem bound_pastCount {env : Env} {e : Expr} {x : Nat} (h : Bound m lib env e (.int x))
    (hfits : 4 + x ≤ 2147483647) :
    Bound m lib env (.sum [.constant .sizeOfInt, e]) (.int (4 + x : Nat)) := by
  have hsum := bound_sumPastCount m lib h
  rwa [show (4 : Int) + x = (4 + x : Nat) by omega, int32_natCast hfits] at hsum

theorem bound_local {env : Env} {name : Local} {v : Value} (hname : name ≠ .toRelease)
    (h : env.lookup name = some v) : Bound m lib env (.var name) v := by
  intro st
  cases name with
  | toRelease => exact absurd rfl hname
  | _ => simp [Expr.eval, h]

theorem evalAll_bound {env : Env} {es : List Expr} {vs : List Value}
    (h : List.Forall₂ (Bound m lib env) es vs) (st : State) :
    evalAll m lib env es st = some (vs, st) := by
  induction h with
  | nil => rfl
  | cons hhead _ ih => simp [evalAll, hhead st, ih]

theorem Counting.bounds {depth : Nat} {env : Env} {counters : List Expr} {idx : List Nat}
    (h : Counting depth env counters idx) :
    List.Forall₂ (Bound m lib env) counters (idx.map fun (i : Nat) => .int i) := by
  induction h with
  | nil => exact .nil
  | cons hhead _ ih =>
    obtain ⟨j, _, rfl, hlookup⟩ := hhead
    exact .cons (bound_counter m lib hlookup) ih

/-- The sum that `flatIndex` spells, from the outermost index on. -/
theorem sum_weighted (env : Env) (dims : List Nat) (counters : List Expr) (idx : List Nat)
    (depth : Nat) (positive : ∀ d ∈ dims, 0 < d) (hcounters : Counting depth env counters idx)
    (hidx : InBounds dims idx) (before : Nat) (hfits : before + dims.prod ≤ 2147483647) (st : State) :
    ∃ values, evalAll m lib env (List.zipWith weighted (strides dims) counters) st =
        some (values, st) ∧
      Value.sum? before values = some (.int (before + flat dims idx : Nat)) := by
  induction hcounters generalizing dims before with
  | nil =>
    have hdims : dims = [] := by
      cases hidx
      rfl
    subst hdims
    refine ⟨[], rfl, ?_⟩
    simp [Value.sum?, flat]
  | @cons e i es is hhead htail ih =>
    cases dims with
    | nil => cases hidx
    | cons d rest =>
      obtain ⟨hi, hinner⟩ := inBounds_cons.mp hidx
      have hrest : ∀ x ∈ rest, 0 < x := fun x hx => positive x (by simp [hx])
      have hpos := prod_pos rest hrest
      rw [List.prod_cons] at hfits
      have hrow := row_end_le (p := rest.prod) hi
      have hwhole : rest.prod ≤ d * rest.prod :=
        Nat.le_mul_of_pos_left _ (Nat.lt_of_le_of_lt (Nat.zero_le i) hi)
      have hlimit : rest.prod ≤ strideLimit := by
        unfold strideLimit
        omega
      rw [strides_cons d rest hrest hlimit, List.zipWith_cons_cons]
      obtain ⟨j, _, rfl, hlookup⟩ := hhead
      have hcounter := bound_counter m lib hlookup
      have hterm : Bound m lib env (weighted rest.prod (counter j)) (.int (i * rest.prod : Nat)) := by
        unfold weighted
        by_cases hone : rest.prod = 1
        · rw [if_pos hone, hone, Nat.mul_one]
          exact hcounter
        · rw [if_neg hone]
          exact bound_times m lib hcounter (bound_nat m lib env _ (by omega)) (by omega)
      obtain ⟨values, hvalues, hsum⟩ := ih rest hrest hinner (before + i * rest.prod) (by omega)
      refine ⟨.int (i * rest.prod : Nat) :: values, ?_, ?_⟩
      · simp [evalAll, hterm st, hvalues]
      · have hnext : ((before : Int) + (i * rest.prod : Nat)) = (before + i * rest.prod : Nat) := by
          omega
        rw [Value.sum?, hnext, int32_natCast (by omega), hsum, flat_cons, Nat.add_assoc]

theorem bound_flatIndex {env : Env} {dims idx : List Nat} {counters : List Expr} {depth : Nat}
    (valid : ValidDims dims) (hcounters : Counting depth env counters idx)
    (hidx : InBounds dims idx) :
    Bound m lib env (flatIndex dims counters) (.int (flat dims idx)) := by
  intro st
  have hcount := valid.count_lt
  obtain ⟨values, hvalues, hsum⟩ :=
    sum_weighted m lib env dims counters idx depth valid.positive hcounters hidx 0 (by omega) st
  rw [flatIndex, Expr.eval, hvalues]
  simp only [Option.bind_eq_bind, Option.bind_some]
  have hsum' : Value.sum? 0 values = some (.int (flat dims idx)) := by
    simpa using hsum
  rw [hsum']
  rfl

/-- A nest without row allocations, inside loops that have brought it to position `start`. -/
theorem exec_loopNestFrom (Inv : Nat → State → Prop) (body : List Expr → List Stmt)
    (dims : List Nat) (hdims : ∀ d ∈ dims, d ≤ 2147483647) (depth : Nat) (env : Env)
    (outer : List Expr) (o : List Nat) (start : Nat) (st : State)
    (houter : Counting depth env outer o)
    (hbody : ∀ inner, InBounds dims inner → ∀ env' counters,
      Counting (depth + dims.length) env' counters (o ++ inner) → env.SameLocals env' →
      ∀ st, Inv (start + flat dims inner) st → ∃ pre st',
        execAll m lib (body counters) env' st = some (pre ++ env', st') ∧
          Inv (start + flat dims inner + 1) st')
    (hstart : Inv start st) :
    ∃ pre st', execAll m lib (loopNestFrom none body depth outer dims) env st =
        some (pre ++ env, st') ∧
      (dims ≠ [] → pre = []) ∧ Inv (start + dims.prod) st' := by
  induction dims generalizing depth env outer o start st with
  | nil =>
    obtain ⟨pre, st', hexec, hinv⟩ := hbody [] .nil env outer
      (by simpa using houter) (.refl env) st hstart
    exact ⟨pre, st', hexec, fun h => absurd rfl h, hinv⟩
  | cons d rest ih =>
    have hround : ∀ i < d, ∀ st, Inv (start + i * rest.prod) st → ∃ pre st',
        execAll m lib (loopNestFrom none body (depth + 1) (outer ++ [counter depth]) rest)
          ((.counter depth, .int i) :: env) st =
          some (pre ++ (.counter depth, .int i) :: env, st') ∧
        Inv (start + (i + 1) * rest.prod) st' := by
      intro i hi st hinv
      have hrow := ih (fun x hx => hdims x (by simp [hx])) (depth + 1)
        ((.counter depth, .int i) :: env) (outer ++ [counter depth]) (o ++ [i])
        (start + i * rest.prod) st (houter.push i)
      have hinner : ∀ inner, InBounds rest inner → ∀ env' counters,
          Counting (depth + 1 + rest.length) env' counters (o ++ [i] ++ inner) →
          Env.SameLocals ((.counter depth, .int i) :: env) env' →
          ∀ st, Inv (start + i * rest.prod + flat rest inner) st → ∃ pre st',
            execAll m lib (body counters) env' st = some (pre ++ env', st') ∧
              Inv (start + i * rest.prod + flat rest inner + 1) st' := by
        intro inner hinner env' counters hcounting hlocals st hinv
        have hposition : start + i * rest.prod + flat rest inner =
            start + flat (d :: rest) (i :: inner) := by
          rw [flat_cons, Nat.add_assoc]
        have hdepth : depth + (d :: rest).length = depth + 1 + rest.length := by
          simp only [List.length_cons]
          omega
        rw [hposition] at hinv ⊢
        refine hbody (i :: inner) (inBounds_cons.mpr ⟨hi, hinner⟩) env' counters ?_
          hlocals.of_push st hinv
        rw [hdepth, List.append_cons]
        exact hcounting
      obtain ⟨pre, st', hexec, _, hnext⟩ := hrow hinner hinv
      rw [Nat.add_assoc, ← Nat.succ_mul] at hnext
      exact ⟨pre, st', hexec, hnext⟩
    obtain ⟨st', hexec, hend⟩ := exec_countUp m lib (fun i => Inv (start + i * rest.prod)) depth d
      (.nat d) _ env st (bound_nat m lib env d (hdims d (by simp))) hround (by simpa using hstart)
    refine ⟨[], st', ?_, fun _ => rfl, ?_⟩
    · rw [loopNestFrom, RowAllocation.atLevel, List.nil_append, execAll_cons m lib _ _ _ _ _ _ hexec]
      rfl
    · rw [List.prod_cons]
      exact hend

/-- A nest without row allocations keeps an invariant on the row-major position. -/
theorem exec_loopNest (Inv : Nat → State → Prop) (body : List Expr → List Stmt)
    (dims : List Nat) (valid : ValidDims dims) (depth : Nat) (env : Env) (st : State)
    (hbody : ∀ idx, InBounds dims idx → ∀ env' counters,
      Counting (depth + dims.length) env' counters idx → env.SameLocals env' →
      ∀ st, Inv (flat dims idx) st → ∃ pre st',
        execAll m lib (body counters) env' st = some (pre ++ env', st') ∧
          Inv (flat dims idx + 1) st')
    (hstart : Inv 0 st) :
    ∃ st', execAll m lib (loopNest depth dims none body) env st = some (env, st') ∧
      Inv dims.prod st' := by
  obtain ⟨pre, st', hexec, hpre, hend⟩ := exec_loopNestFrom m lib Inv body dims valid.dim_le depth env
    [] [] 0 st (.nil depth env) (by simpa using hbody) hstart
  rw [hpre valid.nonempty, List.nil_append] at hexec
  rw [Nat.zero_add] at hend
  exact ⟨st', hexec, hend⟩

end

end InteropGen.CSharp

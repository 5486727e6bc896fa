import InteropGen.Proofs.Machine.Arrays

/-!
# Filling arrays

A loop nest that assigns each element of a fresh array. In the jagged layout the rows of the array
are allocated on the way, at the start of the loop that goes through them, or all of them before the
elements are visited.

* `filledRows` — the array between two rounds of the outermost loop;
* `exec_fillFrom` — the induction over the dimensions, for any way in which the rows come to be;
* `exec_fill` — a nest with the row allocations of its layout;
* `exec_rows` — the allocation of all rows;
* `exec_fillRows` — a nest without allocations, over rows that are there.
-/

set_option autoImplicit false

namespace InteropGen

open CSharp

/-- A jagged array of which only the outermost row is allocated. -/
def rowStart (x : Value) : (dims : List Nat) → Value
  | [] => x
  | [d] => .array 1 (List.replicate d x)
  | d :: _ :: _ => .array 1 (List.replicate d .null)

/-- What `Layout.arrayAllocation` makes. -/
def Layout.freshArray (layout : Layout) (x : Value) (dims : List Nat) : Value :=
  match layout with
  | rectangular => layout.arrayValue dims fun _ => x
  | jagged => rowStart x dims

section
variable (m : Machine) (lib : Library)

theorem eval_arrayAllocation (layout : Layout) (element : Ty) (dims : List Nat) (h : dims ≠ [])
    (env : Env) (st : State) :
    (layout.arrayAllocation element dims).eval m lib env st =
      some (layout.freshArray (lib.zero element) dims, st) := by
  cases layout with
  | rectangular =>
    simp [Layout.arrayAllocation, Expr.eval, newArrayValue_eq, Layout.freshArray]
  | jagged =>
    cases dims with
    | nil => exact absurd rfl h
    | cons d inner =>
      cases inner <;>
        simp [Layout.arrayAllocation, Expr.eval, newArrayValue, Layout.freshArray, rowStart]

/-- A fresh array is put into the place of whatever was there. -/
theorem exec_freshArray (layout : Layout) {base : Expr} {root : Value → Value} {env : Env}
    (hbase : PlaceAt m lib env base .value root) (element : Ty) {dims : List Nat} (h : dims ≠ [])
    {x : Value} {st : State} (hself : st.self = root x) :
    (Stmt.assign base (layout.arrayAllocation element dims)).exec m lib env st =
      some (env, st.set .value (root (layout.freshArray (lib.zero element) dims))) :=
  exec_assign m lib _ _ _ env env st st _ (eval_arrayAllocation m lib layout element dims h env st)
    (hbase.assign st x _ hself)

theorem bound_listAllocation (element : Ty) (maxBound : Nat) (h : maxBound ≤ 2147483647)
    (env : Env) : Bound m lib env (listAllocation element maxBound) (.list []) := by
  intro st
  unfold listAllocation
  by_cases hzero : maxBound = 0
  · rw [if_pos hzero]
    rfl
  · rw [if_neg hzero, Expr.eval,
      evalAll_cons m lib _ [] env st st st _ _ (bound_nat m lib env maxBound h st) rfl]
    simp [Machine.construct?]

/-- The rows of an array of which the first `i` are filled. The others are still what stands in the
place of a row before it is. -/
def filledRows (layout : Layout) (d : Nat) (rest : List Nat) (f : List Nat → Value) (before : Value)
    (i : Nat) : List Value :=
  ((List.range i).map fun j => layout.arrayValue rest fun inner => f (j :: inner)) ++
    List.replicate (d - i) before

section
variable {layout : Layout} {d i : Nat} {rest : List Nat} {f : List Nat → Value} {before : Value}

theorem filledRows_zero : filledRows layout d rest f before 0 = List.replicate d before := rfl

theorem filledRows_all :
    .array (layout.levelRank (rest.length + 1)) (filledRows layout d rest f before d) =
      layout.arrayValue (d :: rest) f := by
  simp [filledRows, Layout.arrayValue]

/-- Row `i` has a hole of its own between the rows that are filled and those that are not. -/
theorem Hole.row {o : List Nat} {around : Value → Value}
    (hole : Hole layout (rest.length + 1) o around) (hi : i < d) :
    ∃ row : Value → Value, Hole layout rest.length (o ++ [i]) row ∧
      row before =
        around (.array (layout.levelRank (rest.length + 1)) (filledRows layout d rest f before i)) ∧
      row (layout.arrayValue rest fun inner => f (i :: inner)) =
        around (.array (layout.levelRank (rest.length + 1))
          (filledRows layout d rest f before (i + 1))) := by
  let done := (List.range i).map fun j => layout.arrayValue rest fun inner => f (j :: inner)
  have hlength : done.length = i := by simp [done]
  have hinside := Hole.inside rest.length o around done (List.replicate (d - (i + 1)) before) hole
  rw [hlength] at hinside
  have hcount : d - i = d - (i + 1) + 1 := by omega
  refine ⟨_, hinside, ?_, ?_⟩
  · simp only [filledRows, hcount, List.replicate_succ, done]
  · simp [filledRows, done, List.range_succ]

end

/-- Behind a hole, the body puts the value of each element into a hole of its own, where it finds a
first value `x`. The hole is at `o`, and the elements before it are `start`. -/
def FillsBehind (layout : Layout) (root : Value → Value) (body : List Expr → List Stmt)
    (states : Nat → State) (x : Value) (f : List Nat → Value) (dims : List Nat) (depth : Nat)
    (env : Env) (o : List Nat) (start : Nat) : Prop :=
  ∀ inner, InBounds dims inner → ∀ env' counters around,
    Counting (depth + dims.length) env' counters (o ++ inner) → env.SameLocals env' →
    Hole layout 0 (o ++ inner) around → ∃ pre,
      execAll m lib (body counters) env'
          ((states (start + flat dims inner)).set .value (root (around x))) =
        some (pre ++ env',
          (states (start + flat dims inner + 1)).set .value (root (around (f inner))))

/-- One loop further in. -/
theorem FillsBehind.row {layout : Layout} {root : Value → Value} {body : List Expr → List Stmt}
    {states : Nat → State} {x : Value} {f : List Nat → Value} {d : Nat} {rest : List Nat}
    {depth : Nat} {env : Env} {o : List Nat} {start : Nat}
    (h : FillsBehind m lib layout root body states x f (d :: rest) depth env o start) {i : Nat}
    (hi : i < d) :
    FillsBehind m lib layout root body states x (fun inner => f (i :: inner)) rest (depth + 1)
      ((.counter depth, .int i) :: env) (o ++ [i]) (start + i * rest.prod) := by
  intro inner hinner env' counters around hcounters hlocals hole
  have hposition : start + i * rest.prod + flat rest inner =
      start + flat (d :: rest) (i :: inner) := by
    rw [flat_cons, Nat.add_assoc]
  have hdepth : depth + (d :: rest).length = depth + 1 + rest.length := by
    simp only [List.length_cons]
    omega
  rw [List.append_assoc, List.singleton_append] at hcounters hole
  rw [hposition]
  refine h (i :: inner) (inBounds_cons.mpr ⟨hi, hinner⟩) env' counters around ?_ hlocals.of_push
    hole
  rw [hdepth]
  exact hcounters

/-- A nest that fills the part of an array behind a hole. `init rest` is that part as the nest finds
it, with dimensions `rest`, and `hidden rest` what stands in its place before a row allocation;
`states` is the state by the number of elements done, up to the object. -/
theorem exec_fillFrom (layout : Layout) (rows : Option RowAllocation) (root : Value → Value)
    (body : List Expr → List Stmt) (hidden init : List Nat → Value) (states : Nat → State)
    (full tail : List Nat)
    (hinit : ∀ d rest, init (d :: rest) =
      .array (layout.levelRank (rest.length + 1)) (List.replicate d (hidden rest)))
    (hrow : ∀ rest depth env counters o around k, full.drop o.length = rest ++ tail →
      Hole layout rest.length o around → Counting depth env counters o →
      execAll m lib (RowAllocation.atLevel rows counters) env
          ((states k).set .value (root (around (hidden rest)))) =
        some (env, (states k).set .value (root (around (init rest)))))
    (dims : List Nat) (hdims : ∀ d ∈ dims, d ≤ 2147483647) (depth : Nat) (env : Env)
    (outer : List Expr) (o : List Nat) (around : Value → Value) (start : Nat)
    (f : List Nat → Value) (hfull : full.drop o.length = dims ++ tail)
    (hole : Hole layout dims.length o around) (houter : Counting depth env outer o)
    (hbody : FillsBehind m lib layout root body states (init []) f dims depth env o start) :
    ∃ pre, execAll m lib (loopNestFrom rows body depth outer dims) env
        ((states start).set .value (root (around (init dims)))) =
      some (pre ++ env,
        (states (start + dims.prod)).set .value (root (around (layout.arrayValue dims f)))) ∧
      (dims ≠ [] → pre = []) := by
  induction dims generalizing depth env outer o around start f with
  | nil =>
    obtain ⟨pre, hexec⟩ := hbody [] .nil env outer around (by simpa using houter) (.refl env)
      (by simpa using hole)
    exact ⟨pre, hexec, fun h => absurd rfl h⟩
  | cons d rest ih =>
    let items : Nat → List Value := filledRows layout d rest f (hidden rest)
    let Inv : Nat → State → Prop := fun i st =>
      st = (states (start + i * rest.prod)).set .value
        (root (around (.array (layout.levelRank (rest.length + 1)) (items i))))
    have hround : ∀ i < d, ∀ st, Inv i st → ∃ pre st',
        execAll m lib (RowAllocation.atLevel rows (outer ++ [counter depth]) ++
            loopNestFrom rows body (depth + 1) (outer ++ [counter depth]) rest)
          ((.counter depth, .int i) :: env) st =
          some (pre ++ (.counter depth, .int i) :: env, st') ∧ Inv (i + 1) st' := by
      intro i hi st hinv
      subst hinv
      obtain ⟨row, hinside, hbefore, hafter⟩ :=
        @Hole.row layout d i rest f (hidden rest) o around hole hi
      have hcounting := houter.push i
      have hleft : full.drop (o ++ [i]).length = rest ++ tail := by
        rw [List.length_append, List.length_singleton, ← List.drop_drop, hfull]
        rfl
      have halloc := hrow rest (depth + 1) ((.counter depth, .int i) :: env)
        (outer ++ [counter depth]) (o ++ [i]) row (start + i * rest.prod) hleft hinside hcounting
      obtain ⟨pre, hexec, _⟩ := ih (fun x hx => hdims x (by simp [hx])) (depth + 1)
        ((.counter depth, .int i) :: env) (outer ++ [counter depth]) (o ++ [i]) row
        (start + i * rest.prod) (fun inner => f (i :: inner)) hleft hinside hcounting
        (hbody.row m lib hi)
      refine ⟨pre, _, ?_, rfl⟩
      rw [← hbefore, ← hafter, execAll_append m lib _ _ _ _ _ _ halloc, hexec, Nat.succ_mul,
        Nat.add_assoc start]
    have hstart : Inv 0 ((states start).set .value (root (around (init (d :: rest))))) := by
      simp [Inv, items, filledRows_zero, hinit]
    obtain ⟨st', hexec, hend⟩ := exec_countUp m lib Inv depth d (.nat d) _ env _
      (bound_nat m lib env d (hdims d (by simp))) hround hstart
    refine ⟨[], ?_, fun _ => rfl⟩
    rw [loopNestFrom, execAll_cons m lib _ _ _ _ _ _ hexec, hend, filledRows_all]
    simp [execAll]

/-- The body of a nest puts a value into the element that its counters lead to, where it finds a
first value. -/
def FillsElement (layout : Layout) (base : Expr) (dims : List Nat) (depth : Nat) (env : Env)
    (states : Nat → State) (x : Value) (f : List Nat → Value) (body : List Expr → List Stmt) :
    Prop :=
  ∀ idx, InBounds dims idx → ∀ env' counters root,
    Counting (depth + dims.length) env' counters idx → env.SameLocals env' →
    (∀ env'', Counting (depth + dims.length) env'' counters idx →
      PlaceAt m lib env'' (layout.elementAt base counters) .value root) → ∃ pre,
      execAll m lib (body counters) env' ((states (flat dims idx)).set .value (root x)) =
        some (pre ++ env', (states (flat dims idx + 1)).set .value (root (f idx)))

/-- A nest over an array whose rows are all there. -/
theorem exec_fillRows (layout : Layout) (base : Expr) (root : Value → Value)
    (hbase : ∀ env, PlaceAt m lib env base .value root) (dims : List Nat) (valid : ValidDims dims)
    (depth : Nat) (env : Env) (states : Nat → State) (x : Value) (f : List Nat → Value)
    (body : List Expr → List Stmt)
    (hbody : FillsElement m lib layout base dims depth env states x f body) :
    execAll m lib (loopNest depth dims none body) env
        ((states 0).set .value (root (layout.arrayValue dims fun _ => x))) =
      some (env, (states dims.prod).set .value (root (layout.arrayValue dims f))) := by
  let rows : List Nat → Value := fun rest => layout.arrayValue rest fun _ => x
  obtain ⟨pre, hexec, hpre⟩ := exec_fillFrom m lib layout none root body rows rows states dims []
    (layout.arrayValue_const · · x) (fun _ _ _ _ _ _ _ _ _ _ => rfl) dims valid.dim_le depth env []
    [] id 0 f (by simp) (.here _) (.nil depth env) (by
      intro idx hidx env' counters around hcounters hlocals hole
      rw [Nat.zero_add]
      exact hbody idx hidx env' counters _ hcounters hlocals fun env'' hcounters' =>
        placeAt_elementAt m lib (hbase env'') layout hole (hidx.ne_nil valid.nonempty) hcounters')
  rw [hpre valid.nonempty, List.nil_append, Nat.zero_add] at hexec
  exact hexec

/-- The allocation of the row that a loop is about to go through. -/
theorem exec_row (base : Expr) (root : Value → Value)
    (hbase : ∀ env, PlaceAt m lib env base .value root) (element : Ty) (full : List Nat)
    (rest : List Nat) (depth : Nat) (env : Env)
    (counters : List Expr) (o : List Nat) (around : Value → Value) (remaining : Nat) (st : State)
    (hleft : full.drop o.length = rest)
    (hole : Hole .jagged remaining o around) (hcounters : Counting depth env counters o) :
    execAll m lib (RowAllocation.atLevel (some ⟨base, element, full⟩) counters) env
        (st.set .value (root (around (if rest = [] then lib.zero element else .null)))) =
      some (env, st.set .value (root (around (rowStart (lib.zero element) rest)))) := by
  have hlength : counters.length = o.length := List.Forall₂.length_eq hcounters
  have hsizes : full.length - o.length = rest.length := by
    rw [← hleft, List.length_drop]
  cases rest with
  | nil =>
    have hdone : ¬ counters.length < full.length := by
      simp only [List.length_nil] at hsizes
      omega
    simp [RowAllocation.atLevel, hdone, execAll, rowStart]
  | cons d more =>
    have hleaves : counters.length < full.length := by
      simp only [List.length_cons] at hsizes
      omega
    have hdim : full.getD o.length 0 = d := by
      have hget : (full.drop o.length)[0]? = some d := by rw [hleft]; rfl
      rw [List.getElem?_drop, Nat.add_zero] at hget
      rw [List.getD_eq_getElem?_getD, hget]
      rfl
    have hmore : full.length - (o.length + 1) = more.length := by
      simp only [List.length_cons] at hsizes
      omega
    have place := placeAt_jaggedAccess m lib (hbase env) hole counters (hcounters.bounds m lib)
    have hrow : newArrayValue (if more.length = 0 then lib.zero element else .null) [d] =
        rowStart (lib.zero element) (d :: more) := by
      cases more <;> rfl
    rw [hlength] at hleaves
    have hassign : (Stmt.assign (jaggedAccess base counters) (.newArray element [d] more.length)).exec
        m lib env (st.set .value (root (around .null))) =
        some (env, st.set .value (root (around (rowStart (lib.zero element) (d :: more))))) := by
      refine exec_assign m lib _ _ _ env env _ _ _ rfl ?_
      rw [hrow, place.assign _ .null _ (State.get_set ..), State.set_set]
    simp only [RowAllocation.atLevel, RowAllocation.row, hlength, hdim, hmore, if_pos hleaves]
    rw [if_neg (List.cons_ne_nil d more), execAll_cons m lib _ _ _ _ _ _ hassign]
    rfl

/-- What a nest finds behind a hole of a jagged array whose rows it allocates, before and after the
allocation there. -/
theorem rowStart_cons (x : Value) (d : Nat) (rest : List Nat) :
    rowStart x (d :: rest) =
      .array 1 (List.replicate d (if rest = [] then x else .null)) := by
  cases rest <;> rfl

/-- A nest over a jagged array that allocates its rows, down to rows with dimensions `tail`. -/
theorem exec_fillJagged (base : Expr) (root : Value → Value)
    (hbase : ∀ env, PlaceAt m lib env base .value root) (element : Ty) (dims tail : List Nat)
    (hne : dims ≠ []) (hdims : ∀ d ∈ dims, d ≤ 2147483647) (depth : Nat) (env : Env)
    (states : Nat → State) (f : List Nat → Value) (body : List Expr → List Stmt)
    (hbody : FillsElement m lib .jagged base dims depth env states
      (rowStart (lib.zero element) tail) f body) :
    execAll m lib (loopNest depth dims (some ⟨base, element, dims ++ tail⟩) body) env
        ((states 0).set .value (root (rowStart (lib.zero element) (dims ++ tail)))) =
      some (env, (states dims.prod).set .value (root (Layout.jagged.arrayValue dims f))) := by
  let hidden : List Nat → Value := fun rest =>
    if rest ++ tail = [] then lib.zero element else .null
  let init : List Nat → Value := fun rest => rowStart (lib.zero element) (rest ++ tail)
  obtain ⟨pre, hexec, hpre⟩ := exec_fillFrom m lib .jagged (some ⟨base, element, dims ++ tail⟩) root
    body hidden init states (dims ++ tail) tail
    (fun d rest => rowStart_cons (lib.zero element) d (rest ++ tail))
    (fun rest depth env counters o around k hleft hole hcounters =>
      exec_row m lib base root hbase element (dims ++ tail) (rest ++ tail) depth env counters o
        around rest.length (states k) hleft hole hcounters)
    dims hdims depth env [] [] id 0 f rfl (.here _) (.nil depth env) (by
      intro idx hidx env' counters around hcounters hlocals hole
      rw [Nat.zero_add]
      exact hbody idx hidx env' counters _ hcounters hlocals fun env'' hcounters' =>
        placeAt_elementAt m lib (hbase env'') .jagged hole (hidx.ne_nil hne) hcounters')
  rw [hpre hne, List.nil_append, Nat.zero_add] at hexec
  exact hexec

/-- A nest that allocates the rows of its layout, over a fresh array. -/
theorem exec_fill (layout : Layout) (base : Expr) (root : Value → Value)
    (hbase : ∀ env, PlaceAt m lib env base .value root) (element : Ty) (dims : List Nat)
    (valid : ValidDims dims) (depth : Nat) (env : Env) (states : Nat → State)
    (f : List Nat → Value) (body : List Expr → List Stmt)
    (hbody : FillsElement m lib layout base dims depth env states (lib.zero element) f body) :
    execAll m lib (loopNest depth dims (layout.rows? base element dims) body) env
        ((states 0).set .value (root (layout.freshArray (lib.zero element) dims))) =
      some (env, (states dims.prod).set .value (root (layout.arrayValue dims f))) := by
  cases layout with
  | rectangular =>
    exact exec_fillRows m lib .rectangular base root hbase dims valid depth env states _ f body hbody
  | jagged =>
    match dims, valid with
    | [], valid => exact absurd rfl valid.nonempty
    | [d], valid =>
      have hstart : Layout.jagged.freshArray (lib.zero element) [d] =
          Layout.jagged.arrayValue [d] fun _ => lib.zero element := by
        rw [Layout.arrayValue_const]
        rfl
      rw [hstart]
      exact exec_fillRows m lib .jagged base root hbase [d] valid depth env states _ f body hbody
    | d :: e :: rest, valid =>
      have hfill := exec_fillJagged m lib base root hbase element (d :: e :: rest) [] (by simp)
        valid.dim_le depth env states f body hbody
      simp only [List.append_nil] at hfill
      exact hfill

theorem arrayValue_snoc (x : Value) (dims : List Nat) (last : Nat) :
    (Layout.jagged.arrayValue (dims ++ [last]) fun _ => x) =
      Layout.jagged.arrayValue dims fun _ => .array 1 (List.replicate last x) := by
  induction dims with
  | nil => exact Layout.arrayValue_const .jagged last [] x
  | cons d rest ih =>
    rw [List.cons_append, Layout.arrayValue_const, Layout.arrayValue_const, ih]
    rfl

/-- The allocation of all rows of a fresh array. -/
theorem exec_rows (layout : Layout) (base : Expr) (root : Value → Value)
    (hbase : ∀ env, PlaceAt m lib env base .value root) (element : Ty) (dims : List Nat)
    (valid : ValidDims dims) (depth : Nat) (env : Env) (st : State) :
    execAll m lib ((layout.rows? base element dims).elim [] (allRows depth)) env
        (st.set .value (root (layout.freshArray (lib.zero element) dims))) =
      some (env, st.set .value (root (layout.arrayValue dims fun _ => lib.zero element))) := by
  cases layout with
  | rectangular => rfl
  | jagged =>
    obtain ⟨outer, last, rfl⟩ : ∃ outer last, dims = outer ++ [last] :=
      ⟨dims.dropLast, dims.getLast valid.nonempty, (List.dropLast_append_getLast _).symm⟩
    cases outer with
    | nil =>
      rw [arrayValue_snoc]
      rfl
    | cons d rest =>
      have hmulti : multiDimensional (d :: rest ++ [last]) = true := by
        simp [multiDimensional]
      have hdims : ∀ x ∈ d :: rest, x ≤ 2147483647 := fun x hx =>
        valid.dim_le x (List.mem_append_left _ hx)
      have hrows : (Layout.jagged.rows? base element (d :: rest ++ [last])).elim [] (allRows depth) =
          loopNest depth (d :: rest) (some ⟨base, element, d :: rest ++ [last]⟩) fun _ => [] := by
        have hallocates : Layout.jagged.allocatesRows (d :: rest ++ [last]) = true := hmulti
        have hlast : (d :: rest ++ [last]).dropLast = d :: rest := List.dropLast_concat
        rw [Layout.rows?, if_pos hallocates, Option.elim_some, allRows]
        simp only [hlast]
      rw [hrows, arrayValue_snoc]
      refine exec_fillJagged m lib base root hbase element (d :: rest) [last] (by simp) hdims depth
        env (fun _ => st) (fun _ => .array 1 (List.replicate last (lib.zero element))) (fun _ => []) ?_
      intro idx _ env' counters root' _ _ _
      exact ⟨[], rfl⟩

end

end InteropGen

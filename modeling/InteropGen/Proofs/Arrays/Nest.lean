import InteropGen.Proofs.Arrays.Trace
import InteropGen.Proofs.Bodies
import InteropGen.Proofs.Wire.Calls

/-!
# Loop nests in traces

What the pieces of an array conversion do, as events: the element that loop counters lead to, its
position in the flattened array, the allocation of rows, and a nest of loops around all of them.

* `int_flatIndex` — `flatIndex` stands for the row-major position, nothing of which is cut off;
* `trace_loopNest` — a nest makes the events of its body for each index tuple;
* `trace_filledArray`, `trace_allRows` — the root allocation and the rows, with or without the
  elements.
-/

set_option autoImplicit false

namespace InteropGen

open CSharp

section
variable {env : Env} {depth : Nat} {counters : List Expr} {idx : List Nat}

/-- Numbers of variables under which loop counters have their values. -/
def CountsOn (env : Env) (vars : Local → Option Int) : Prop :=
  ∀ j (i : Nat), env.lookup (.counter j) = some (.int i) → vars (.counter j) = some (i : Int)

theorem countsOn_env (env : Env) : CountsOn env env.int? := by
  intro j i h
  simp [Env.int?, h, Value.int?]

theorem countsOn_scope (sc : Scope) : CountsOn sc.env sc.int? :=
  countsOn_env sc.env

theorem number_counter {j i : Nat} (h : env.lookup (.counter j) = some (.int (i : Nat))) :
    (counter j).number? env = some i := by
  simp [counter, Expr.number?, Expr.int?, countsOn_env env j i h]

theorem numbers_counters (h : Counting depth env counters idx) :
    counters.mapM (Expr.number? env) = some idx := by
  rw [option_mapM_eq_some_iff]
  refine h.imp fun e i hcounter => ?_
  obtain ⟨j, _, rfl, hlookup⟩ := hcounter
  exact number_counter hlookup

/-- The sum that `flatIndex` spells, from the outermost index on. -/
theorem sumInt_weighted {vars : Local → Option Int} (hvars : CountsOn env vars) (dims : List Nat)
    (positive : ∀ d ∈ dims, 0 < d) (h : Counting depth env counters idx) (hidx : InBounds dims idx)
    (before : Nat) (hfits : before + dims.prod ≤ 2147483647) :
    sumInt? vars before (List.zipWith weighted (strides dims) counters) =
      some ((before + flat dims idx : Nat) : Int) := by
  induction h generalizing dims before with
  | nil =>
    cases hidx
    rfl
  | @cons e i counters idx hhead htail ih =>
    cases dims with
    | nil => cases hidx
    | cons d rest =>
      obtain ⟨hi, hinner⟩ := inBounds_cons.mp hidx
      have hrest : ∀ x ∈ rest, 0 < x := fun x hx => positive x (by simp [hx])
      have hrow := row_end_le (p := rest.prod) hi
      have hwhole : rest.prod ≤ d * rest.prod :=
        Nat.le_mul_of_pos_left _ (Nat.lt_of_le_of_lt (Nat.zero_le i) hi)
      rw [List.prod_cons] at hfits
      rw [strides_cons d rest hrest (by unfold strideLimit; omega), List.zipWith_cons_cons]
      obtain ⟨j, _, rfl, hlookup⟩ := hhead
      have hcounter : (counter j).int? vars = some (i : Int) := hvars j i hlookup
      have hterm : (weighted rest.prod (counter j)).int? vars = some ((i * rest.prod : Nat) : Int) := by
        unfold weighted
        by_cases hone : rest.prod = 1
        · rw [if_pos hone, hone, Nat.mul_one, hcounter]
        · have hnumeral : InInt32 rest.prod := ⟨by omega, by omega⟩
          have hproduct : int32 ((i : Int) * rest.prod) = (i * rest.prod : Nat) := by
            rw [← Int.natCast_mul, int32_natCast (by omega)]
          rw [if_neg hone, Expr.int?, Expr.int?_times_nat hcounter hnumeral, hproduct]
      have hnext : int32 ((before : Int) + (i * rest.prod : Nat)) =
          (before + i * rest.prod : Nat) := by
        rw [← Int.natCast_add, int32_natCast (by omega)]
      rw [sumInt?, hterm, Option.bind_eq_bind, Option.bind_some, hnext,
        ih rest hrest hinner (before + i * rest.prod) (by omega), flat_cons, Nat.add_assoc]

theorem int_flatIndex {vars : Local → Option Int} (hvars : CountsOn env vars) {dims : List Nat}
    (valid : ValidDims dims) (h : Counting depth env counters idx) (hidx : InBounds dims idx) :
    (flatIndex dims counters).int? vars = some (flat dims idx : Int) := by
  have hcount := valid.count_lt
  have hsum := sumInt_weighted hvars dims valid.positive h hidx 0 (by omega)
  rw [Nat.zero_add] at hsum
  rw [flatIndex, Expr.int?]
  exact hsum

theorem number_flatIndex {dims : List Nat} (valid : ValidDims dims)
    (h : Counting depth env counters idx) (hidx : InBounds dims idx) :
    (flatIndex dims counters).number? env = some (flat dims idx) := by
  simp [Expr.number?, int_flatIndex (countsOn_env env) valid h hidx]

end

/-- How the indices of an element are spread over pairs of brackets. -/
def Layout.brackets (layout : Layout) (idx : List Nat) : List (List Nat) :=
  match layout with
  | rectangular => [idx]
  | jagged => idx.map ([·])

namespace FieldView

variable (f : FieldView)

/-- The property of the value object. -/
def whole : Spot :=
  .element .value f.site.field []

/-- An element of it. -/
def item (layout : Layout) (idx : List Nat) : Spot :=
  .element .value f.site.field (layout.brackets idx)

/-- The field of the transfer struct. -/
def transfer : Spot :=
  .element .transfer f.site.field []

end FieldView

section
variable {sc : Scope} {depth : Nat} {counters : List Expr} {idx : List Nat}

theorem spot_jaggedAccess (h : Counting depth sc.env counters idx) {base : Expr} {owner : Owner}
    {name : String} {groups : List (List Nat)}
    (hbase : base.spot? sc = some (.element owner name groups)) :
    (jaggedAccess base counters).spot? sc = some (.element owner name (groups ++ idx.map ([·]))) := by
  induction h generalizing base groups with
  | nil => simpa [jaggedAccess] using hbase
  | @cons e i counters idx hhead _ ih =>
    obtain ⟨j, _, rfl, hlookup⟩ := hhead
    have hrow : (Expr.index base [counter j]).spot? sc =
        some (.element owner name (groups ++ [[i]])) := by
      simp [Expr.spot?, hbase, number_counter hlookup]
    have hrest := ih hrow
    rw [List.append_assoc, List.singleton_append] at hrest
    exact hrest

/-- The element that counters lead to. -/
theorem spot_elementAt (layout : Layout) (f : FieldView) (h : Counting depth sc.env counters idx) :
    (layout.elementAt f.value counters).spot? sc = some (f.item layout idx) := by
  cases layout with
  | rectangular =>
    simp [Layout.elementAt, FieldView.value, Expr.spot?, numbers_counters h, FieldView.item,
      Layout.brackets]
  | jagged =>
    have hfield : f.value.spot? sc = some (.element .value f.site.field []) := rfl
    exact spot_jaggedAccess h hfield

/-- The item of an inline array. -/
theorem spot_flatItem (f : FieldView) {dims : List Nat} (valid : ValidDims dims)
    (h : Counting depth sc.env counters idx) (hidx : InBounds dims idx) :
    (Expr.index f.native [flatIndex dims counters]).spot? sc =
      some (.element .transfer f.site.field [[flat dims idx]]) := by
  simp [Expr.spot?, FieldView.native, number_flatIndex valid h hidx]

/-- The slot of an out-of-line array, at the product of its position and the size of a slot. -/
theorem spot_slot (f : FieldView) {dims : List Nat} (valid : ValidDims dims) {path : String}
    (hsize : sc.slotType = some (.named path)) (h : Counting depth sc.env counters idx)
    (hidx : InBounds dims idx) :
    (Expr.call .intPtrAdd [f.native, slotOffset dims counters]).spot? sc =
      some (.slot f.site.field (.named path)
        (int32 (flat dims idx * sc.machine.structSize path))) := by
  simp [Expr.spot?, FieldView.native, slotOffset, hsize, Expr.int?, Scope.int?, Machine.size?,
    int_flatIndex (countsOn_scope sc) valid h hidx]

/-- A place as a value comes from itself. -/
theorem sources_of_spot {e : Expr} {owner : Owner} {name : String} {groups : List (List Nat)}
    (h : e.spot? sc = some (.element owner name groups)) :
    e.sources? sc = some [.element owner name groups] := by
  cases e with
  | field owner' name' =>
    cases h
    rfl
  | index base indices =>
    rw [Expr.sources?, h]
    rfl
  | call function arguments =>
    unfold Expr.spot? at h
    split at h
    · rename_i heq
      cases heq
    · rename_i heq
      cases heq
    · simp only [Option.bind_eq_bind, Option.bind_eq_some_iff] at h
      obtain ⟨_, _, _, _, hslot⟩ := h
      cases hslot
    · cases h
  | _ => cases h

theorem bodyTrace_cons {s : Stmt} {rest : List Stmt} {events more : List Event}
    (hs : s.trace? sc = some events) (hrest : bodyTrace? rest (sc.after s) = some more) :
    bodyTrace? (s :: rest) sc = some (events ++ more) := by
  simp [bodyTrace?, hs, hrest]

theorem bodyTrace_single {s : Stmt} {events : List Event} (hs : s.trace? sc = some events) :
    bodyTrace? [s] sc = some events := by
  have h : bodyTrace? [s] sc = some (events ++ []) := bodyTrace_cons hs rfl
  rwa [List.append_nil] at h

theorem bodyTrace_append {a b : List Stmt} {events more : List Event}
    (ha : bodyTrace? a sc = some events) (hb : bodyTrace? b (a.foldl Scope.after sc) = some more) :
    bodyTrace? (a ++ b) sc = some (events ++ more) := by
  induction a generalizing sc events with
  | nil =>
    cases ha
    exact hb
  | cons s rest ih =>
    simp only [bodyTrace?, Option.bind_eq_bind, Option.bind_eq_some_iff] at ha
    obtain ⟨first, hfirst, others, hothers, hevents⟩ := ha
    cases hevents
    rw [List.append_assoc]
    exact bodyTrace_cons hfirst (ih hothers hb)

/-- An assignment of a value that is no new array and no new memory. -/
theorem trace_assign {place value : Expr} {spot : Spot} {sources : List Spot}
    (hplace : place.spot? sc = some spot) (hvalue : value.sources? sc = some sources)
    (hmemory : ∀ arguments, value ≠ .call .allocHGlobal arguments) :
    (Stmt.assign place value).trace? sc = some [.assign spot sources] := by
  have hleaf : place.assignTrace? sc value = some [.assign spot sources] := by
    unfold Expr.assignTrace?
    split
    · simp [Expr.sources?] at hvalue
    · exact absurd rfl (hmemory _)
    · simp [hplace, hvalue]
  exact hleaf

/-- An allocation. -/
theorem trace_newArray {place : Expr} {spot : Spot} (hplace : place.spot? sc = some spot)
    (element : Ty) (dims : List Nat) (inner : Nat) :
    (Stmt.assign place (.newArray element dims inner)).trace? sc =
      some [.allocate spot element dims inner] := by
  simp [Stmt.trace?, Stmt.leafTrace?, Expr.assignTrace?, hplace]

theorem isElement_of_spot {e : Expr} {spot : Spot} (h : e.spot? sc = some spot) :
    e.isElement = false := by
  cases e with
  | var name => cases h
  | _ => rfl

/-- A value object converted into a place of the transfer struct. -/
theorem trace_convertStruct {value place : Expr} {name name' : String}
    {groups groups' : List (List Nat)}
    (hplace : place.spot? sc = some (.element .transfer name groups))
    (hvalue : value.spot? sc = some (.element .value name' groups')) :
    (Target.convertStruct value place).trace? sc =
      some [.fill (.element .transfer name groups) [.element .value name' groups']] := by
  simp [Target.convertStruct, Stmt.trace?, Stmt.leafTrace?, Expr.callTrace?, hvalue,
    isElement_of_spot hplace, hplace]

/-- A place of the value object filled in from a native one. -/
theorem trace_fromNative {object native : Expr} {spot : Spot} {sources : List Spot}
    (hobject : object.spot? sc = some spot) (hnative : native.sources? sc = some sources) :
    (Stmt.run (.invoke object .fromNative [native])).trace? sc = some [.fill spot sources] := by
  simp [Stmt.trace?, Stmt.leafTrace?, Expr.callTrace?, isElement_of_spot hobject, hobject, hnative]

/-- An entry in the release list. -/
theorem trace_enlist {item : Expr} {sources : List Spot} (h : item.sources? sc = some sources) :
    (Stmt.run (.invoke (.var .toRelease) .add [item])).trace? sc = some (visits sources) := by
  simp [Stmt.trace?, Stmt.leafTrace?, Expr.callTrace?, h]

end

/-- The events of a nest over dimensions: those of a row before the loop through it, those of a leaf
for each index tuple. -/
def nestEvents (row leaf : List Nat → List Event) (o : List Nat) : (dims : List Nat) → List Event
  | [] => leaf o
  | d :: rest => (List.range d).flatMap fun i => row (o ++ [i]) ++ nestEvents row leaf (o ++ [i]) rest

theorem after_atLevel (rows : Option RowAllocation) (counters : List Expr) (sc : Scope) :
    (RowAllocation.atLevel rows counters).foldl Scope.after sc = sc := by
  cases rows with
  | none => rfl
  | some rows =>
    simp only [RowAllocation.atLevel]
    split <;> rfl

/-- A nest over dimensions, inside of loops that have brought it to the indices `o`. Its rows declare
nothing, and its body is only asked for inside the bounds. -/
theorem trace_loopNestFrom (rows : Option RowAllocation) (body : List Expr → List Stmt)
    (row leaf : List Nat → List Event) (sc : Scope) (dims : List Nat) (depth : Nat) (env : Env)
    (outer : List Expr) (o : List Nat) (houter : Counting depth env outer o)
    (hrow : ∀ depth env counters idx, Counting depth env counters idx →
      bodyTrace? (RowAllocation.atLevel rows counters) { sc with env } = some (row idx))
    (hbody : ∀ inner, InBounds dims inner → ∀ depth env counters,
      Counting depth env counters (o ++ inner) →
      bodyTrace? (body counters) { sc with env } = some (leaf (o ++ inner))) :
    bodyTrace? (loopNestFrom rows body depth outer dims) { sc with env } =
      some (nestEvents row leaf o dims) := by
  induction dims generalizing depth env outer o with
  | nil =>
    have h := hbody [] .nil depth env outer
    rw [List.append_nil] at h
    exact h houter
  | cons d rest ih =>
    have hround : ∀ i ∈ List.range d,
        bodyTrace? (RowAllocation.atLevel rows (outer ++ [counter depth]) ++
            loopNestFrom rows body (depth + 1) (outer ++ [counter depth]) rest)
          (Scope.round { sc with env } depth i) =
        some (row (o ++ [i]) ++ nestEvents row leaf (o ++ [i]) rest) := by
      intro i hi
      have hcounters := houter.push i
      refine bodyTrace_append (hrow _ _ _ _ hcounters) ?_
      rw [after_atLevel]
      refine ih (depth + 1) _ (outer ++ [counter depth]) (o ++ [i]) hcounters ?_
      intro inner hinner depth' env' counters h
      rw [List.append_assoc, List.singleton_append] at h ⊢
      exact hbody (i :: inner) (inBounds_cons.mpr ⟨List.mem_range.mp hi, hinner⟩) depth' env'
        counters h
    rw [loopNestFrom]
    refine bodyTrace_single ?_
    rw [Stmt.trace?, option_mapM_of_mem _ _ _ hround]
    simp [nestEvents, List.flatMap]

theorem trace_loopNest (rows : Option RowAllocation) (body : List Expr → List Stmt)
    (row leaf : List Nat → List Event) (sc : Scope) (dims : List Nat) (depth : Nat)
    (hrow : ∀ depth env counters idx, Counting depth env counters idx →
      bodyTrace? (RowAllocation.atLevel rows counters) { sc with env } = some (row idx))
    (hbody : ∀ idx, InBounds dims idx → ∀ depth env counters, Counting depth env counters idx →
      bodyTrace? (body counters) { sc with env } = some (leaf idx)) :
    bodyTrace? (loopNest depth dims rows body) sc = some (nestEvents row leaf [] dims) :=
  trace_loopNestFrom rows body row leaf sc dims depth sc.env [] [] (.nil depth sc.env) hrow hbody

/-- Without rows, the events of a nest are those of its leaves in row-major order. -/
theorem nestEvents_leaves (leaf : List Nat → List Event) (o dims : List Nat) :
    nestEvents (fun _ => []) leaf o dims = (rowMajor dims).flatMap fun idx => leaf (o ++ idx) := by
  induction dims generalizing o with
  | nil => simp [nestEvents, rowMajor]
  | cons d rest ih =>
    simp [nestEvents, rowMajor, ih, List.flatMap_assoc, List.flatMap_map, List.append_assoc]

/-- The events of filling a jagged array: each row is allocated before its items are visited. -/
def jaggedEvents (row : List Nat → Event) (leaf : List Nat → List Event) (o : List Nat) :
    (dims : List Nat) → List Event
  | [] => leaf o
  | d :: rest => row o :: (List.range d).flatMap fun i => jaggedEvents row leaf (o ++ [i]) rest

/-- The allocation of the row at the given indices, the whole array at none. -/
def FieldView.rowEvent (f : FieldView) (element : Ty) (dims : List Nat) (p : List Nat) : Event :=
  .allocate (f.item .jagged p) element [dims.getD p.length 0] (dims.length - (p.length + 1))

/-- The allocation of a whole array, and the events of its elements. -/
def FieldView.arrayEvents (f : FieldView) (layout : Layout) (element : Ty) (dims : List Nat)
    (leaf : List Nat → List Event) : List Event :=
  match layout with
  | .rectangular => .allocate f.whole element dims 0 :: (rowMajor dims).flatMap leaf
  | .jagged => jaggedEvents (f.rowEvent element dims) leaf [] dims

/-- What is read off the events of filling an array, row allocations left out, is read off its
elements in row-major order. -/
theorem jaggedEvents_flatMap {α : Type} (view : Event → List α) (row : List Nat → Event)
    (hrow : ∀ p, view (row p) = []) (leaf : List Nat → List Event) (o dims : List Nat) :
    (jaggedEvents row leaf o dims).flatMap view =
      (rowMajor dims).flatMap fun idx => (leaf (o ++ idx)).flatMap view := by
  induction dims generalizing o with
  | nil => simp [jaggedEvents, rowMajor]
  | cons d rest ih =>
    simp [jaggedEvents, rowMajor, hrow, ih, List.flatMap_assoc, List.flatMap_map,
      List.append_assoc]

theorem FieldView.arrayEvents_flatMap {α : Type} (f : FieldView) (view : Event → List α)
    (hview : ∀ place element dims inner, view (.allocate place element dims inner) = [])
    (layout : Layout) (element : Ty) (dims : List Nat) (leaf : List Nat → List Event) :
    (f.arrayEvents layout element dims leaf).flatMap view =
      (rowMajor dims).flatMap fun idx => (leaf idx).flatMap view := by
  cases layout with
  | rectangular => simp [arrayEvents, hview, List.flatMap_assoc]
  | jagged => exact jaggedEvents_flatMap view _ (fun p => hview _ _ _ _) leaf [] dims

/-- Nothing is read off if the elements are not visited. -/
theorem FieldView.arrayEvents_flatMap_nil {α : Type} (f : FieldView) (view : Event → List α)
    (hview : ∀ place element dims inner, view (.allocate place element dims inner) = [])
    (layout : Layout) (element : Ty) (dims : List Nat) :
    (f.arrayEvents layout element dims fun _ => []).flatMap view = [] := by
  rw [f.arrayEvents_flatMap view hview]
  exact List.flatMap_eq_nil_iff.mpr fun _ _ => rfl

/-- The row that a level of a nest allocates, none at the innermost one. -/
theorem trace_atLevel (f : FieldView) (element : Ty) (dims : List Nat) {sc : Scope} {depth : Nat}
    {counters : List Expr} {idx : List Nat} (h : Counting depth sc.env counters idx) :
    bodyTrace? (RowAllocation.atLevel (some ⟨f.value, element, dims⟩) counters) sc =
      some (if idx.length < dims.length then [f.rowEvent element dims idx] else []) := by
  have hlength : counters.length = idx.length := List.Forall₂.length_eq h
  simp only [RowAllocation.atLevel, hlength]
  split
  · refine bodyTrace_single ?_
    rw [RowAllocation.row, hlength]
    exact trace_newArray (spot_elementAt .jagged f h) _ _ _
  · rfl

/-- A nest that allocates the rows below `o` makes the events of filling the array below `o`. -/
theorem nestEvents_jagged (f : FieldView) (element : Ty) (dims : List Nat)
    (leaf : List Nat → List Event) (o rest : List Nat)
    (hrest : o.length + rest.length = dims.length) :
    (if rest = [] then [] else [f.rowEvent element dims o]) ++
        nestEvents (fun p => if p.length < dims.length then [f.rowEvent element dims p] else []) leaf
          o rest =
      jaggedEvents (f.rowEvent element dims) leaf o rest := by
  induction rest generalizing o with
  | nil => rfl
  | cons d rest ih =>
    have hround : ∀ i, (if (o ++ [i]).length < dims.length then [f.rowEvent element dims (o ++ [i])]
          else []) ++ nestEvents
            (fun p => if p.length < dims.length then [f.rowEvent element dims p] else []) leaf
            (o ++ [i]) rest =
        jaggedEvents (f.rowEvent element dims) leaf (o ++ [i]) rest := by
      intro i
      rw [← ih (o ++ [i]) (by simp at hrest ⊢; omega)]
      congr 1
      cases rest with
      | nil =>
        simp at hrest
        simp [hrest]
      | cons e more =>
        have hlt : (o ++ [i]).length < dims.length := by
          simp at hrest ⊢
          omega
        simp only [if_pos hlt, reduceCtorEq, if_false]
    simp only [nestEvents, hround, jaggedEvents]
    rfl

section
variable (t : Target) (f : FieldView) (element : Ty) (dims : List Nat) (depth : Nat) (sc : Scope)

/-- The allocation of an array in one piece, or of its outermost row. -/
theorem trace_arrayAllocation (layout : Layout) :
    (Stmt.assign f.value (layout.arrayAllocation element dims)).trace? sc =
      some [match layout with
        | .rectangular => .allocate f.whole element dims 0
        | .jagged => f.rowEvent element dims []] := by
  cases layout with
  | rectangular => rfl
  | jagged =>
    cases dims <;> rfl

/-- A nest through a jagged array whose outermost row is there. -/
theorem trace_jaggedNest (body : List Expr → List Stmt) (leaf : List Nat → List Event)
    (valid : ValidDims dims)
    (hbody : ∀ idx, InBounds dims idx → ∀ depth env counters, Counting depth env counters idx →
      bodyTrace? (body counters) { sc with env } = some (leaf idx)) :
    ∃ events, bodyTrace? (loopNest depth dims (Layout.jagged.rows? f.value element dims) body) sc =
        some events ∧
      jaggedEvents (f.rowEvent element dims) leaf [] dims = f.rowEvent element dims [] :: events := by
  by_cases hmulti : multiDimensional dims = true
  · have hrows : Layout.jagged.rows? f.value element dims = some ⟨f.value, element, dims⟩ := by
      simp [Layout.rows?, Layout.allocatesRows, hmulti]
    rw [hrows]
    refine ⟨_, trace_loopNest _ body _ leaf sc dims depth
      (fun depth env counters idx h => trace_atLevel f element dims h) hbody, ?_⟩
    rw [← nestEvents_jagged f element dims leaf [] dims (by simp), if_neg valid.nonempty]
    rfl
  · have hrows : Layout.jagged.rows? f.value element dims = none := by
      simp [Layout.rows?, Layout.allocatesRows, hmulti]
    rw [hrows]
    refine ⟨_, trace_loopNest none body (fun _ => []) leaf sc dims depth
      (fun depth env counters idx h => rfl) hbody, ?_⟩
    obtain ⟨d, rfl⟩ := valid.eq_singleton (by simpa using hmulti)
    simp [jaggedEvents, nestEvents]

/-- An array that is allocated and gone through by one nest. -/
theorem trace_filledArray (layout : Layout) (body : List Expr → List Stmt)
    (leaf : List Nat → List Event) (valid : ValidDims dims)
    (hbody : ∀ idx, InBounds dims idx → ∀ depth env counters, Counting depth env counters idx →
      bodyTrace? (body counters) { sc with env } = some (leaf idx)) :
    bodyTrace? (.assign f.value (layout.arrayAllocation element dims) ::
        loopNest depth dims (layout.rows? f.value element dims) body) sc =
      some (f.arrayEvents layout element dims leaf) := by
  have hroot := trace_arrayAllocation f element dims sc layout
  cases layout with
  | rectangular =>
    have hnest := trace_loopNest none body (fun _ => []) leaf sc dims depth
      (fun depth env counters idx h => rfl) hbody
    rw [nestEvents_leaves] at hnest
    exact bodyTrace_cons hroot hnest
  | jagged =>
    obtain ⟨events, hnest, hevents⟩ := trace_jaggedNest f element dims depth sc body leaf valid hbody
    have h := bodyTrace_cons hroot hnest
    rw [List.singleton_append, ← hevents] at h
    exact h

/-- The rows of a jagged array below `o`, up to the innermost. -/
theorem nestEvents_rows (o rest : List Nat) (hrest : o.length + rest.length = dims.length)
    (hne : rest ≠ []) :
    f.rowEvent element dims o ::
        nestEvents (fun p => if p.length < dims.length then [f.rowEvent element dims p] else [])
          (fun _ => []) o rest.dropLast =
      jaggedEvents (f.rowEvent element dims) (fun _ => []) o rest := by
  induction rest generalizing o with
  | nil => exact absurd rfl hne
  | cons d rest ih =>
    cases rest with
    | nil => simp [nestEvents, jaggedEvents]
    | cons e more =>
      have hround : ∀ i, (if (o ++ [i]).length < dims.length then [f.rowEvent element dims (o ++ [i])]
            else []) ++ nestEvents
              (fun p => if p.length < dims.length then [f.rowEvent element dims p] else [])
              (fun _ => []) (o ++ [i]) (e :: more).dropLast =
          jaggedEvents (f.rowEvent element dims) (fun _ => []) (o ++ [i]) (e :: more) := by
        intro i
        rw [← ih (o ++ [i]) (by simp at hrest ⊢; omega) (by simp)]
        have hlt : (o ++ [i]).length < dims.length := by
          simp at hrest ⊢
          omega
        rw [if_pos hlt]
        rfl
      rw [List.dropLast_cons_of_ne_nil (by simp), nestEvents, jaggedEvents]
      simp only [hround]

/-- An array whose rows are allocated without a visit to its elements. -/
theorem trace_allRows (layout : Layout) (valid : ValidDims dims) :
    bodyTrace? (.assign f.value (layout.arrayAllocation element dims) ::
        (layout.rows? f.value element dims).elim [] (allRows depth)) sc =
      some (f.arrayEvents layout element dims fun _ => []) := by
  have hroot := trace_arrayAllocation f element dims sc layout
  cases layout with
  | rectangular =>
    have hnone : (rowMajor dims).flatMap (fun _ => ([] : List Event)) = [] :=
      List.flatMap_eq_nil_iff.mpr fun _ _ => rfl
    rw [FieldView.arrayEvents, hnone]
    exact bodyTrace_single hroot
  | jagged =>
    have hall := nestEvents_rows f element dims [] dims (by simp) valid.nonempty
    by_cases hmulti : multiDimensional dims = true
    · have hrows : Layout.jagged.rows? f.value element dims = some ⟨f.value, element, dims⟩ := by
        simp [Layout.rows?, Layout.allocatesRows, hmulti]
      have houter : allRows depth ⟨f.value, element, dims⟩ =
          loopNest depth dims.dropLast (some ⟨f.value, element, dims⟩) fun _ => [] := by
        have hlong : 1 < dims.length := by simpa [multiDimensional] using hmulti
        unfold allRows
        split
        · rename_i hnil
          have hlength := congrArg List.length hnil
          simp at hlength
          omega
        · rfl
      have hnest := trace_loopNest (some ⟨f.value, element, dims⟩) (fun _ => []) _ (fun _ => []) sc
        dims.dropLast depth (fun depth env counters idx h => trace_atLevel f element dims h)
        (fun _ _ _ _ _ _ => rfl)
      have h := bodyTrace_cons hroot hnest
      rw [List.singleton_append, hall] at h
      rw [hrows, Option.elim_some, houter]
      exact h
    · have hrows : Layout.jagged.rows? f.value element dims = none := by
        simp [Layout.rows?, Layout.allocatesRows, hmulti]
      rw [hrows, Option.elim_none]
      obtain ⟨d, rfl⟩ := valid.eq_singleton (by simpa using hmulti)
      have h := bodyTrace_single hroot
      rw [h, FieldView.arrayEvents, ← hall]
      rfl

/-- An array that is allocated in one piece. -/
theorem trace_freshArray (layout : Layout) (valid : ValidDims dims)
    (hrows : layout.allocatesRows dims = false) :
    bodyTrace? [.assign f.value (layout.arrayAllocation element dims)] sc =
      some (f.arrayEvents layout element dims fun _ => []) := by
  have h := trace_allRows f element dims 0 sc layout valid
  simpa [Layout.rows?, hrows] using h

end

theorem after_allRows (depth : Nat) (rows : RowAllocation) (sc : Scope) :
    (allRows depth rows).foldl Scope.after sc = sc := by
  unfold allRows
  generalize rows.dims.dropLast = outer
  cases outer <;> rfl

end InteropGen

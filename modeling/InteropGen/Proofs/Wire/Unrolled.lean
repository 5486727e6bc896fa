import InteropGen.Proofs.Transfer.Compiled
import InteropGen.Proofs.Wire.Calls

/-!
# The calls of a message

`Encode` and `Decode` make the same calls, field by field. An array of several dimensions is moved
element by element, the last index moving fastest; in `Decode` its rows are allocated on the way.

* `FieldView.wireCalls` — the calls that belong to a field;
* `bodyCalls_loopNest` — a loop nest unrolls to one call for each index tuple;
* `Target.encode_calls`, `Target.decode_calls` — both methods make them.
-/

set_option autoImplicit false

namespace InteropGen

open CSharp

/-- The bound of a sequence as an argument, absent without a bound. -/
def wireBound (maxBound : Nat) : List Nat :=
  if maxBound = 0 then [] else [maxBound]

/-- The wire tag of a shape whose values are moved by one call each. -/
def Shape.wireTag? : Shape → Option WireTag
  | .primitive kind => some kind.wireTag
  | .string kind => some kind.wireTag
  | _ => none

/-- The calls that move an array of some tag. -/
def arrayCalls (name : String) (tag : WireTag) (dims : List Nat) : List WireCall :=
  if multiDimensional dims then (rowMajor dims).map fun idx => ⟨tag, .scalar, [], ⟨name, idx⟩⟩
  else [⟨tag, .array, [dims.prod], ⟨name, []⟩⟩]

/-- The calls that move a field. -/
def FieldView.wireCalls (f : FieldView) : List WireCall :=
  let whole : Location := ⟨f.site.field, []⟩
  match f.shape with
  | .primitive kind => [⟨kind.wireTag, .scalar, [], whole⟩]
  | .string kind => [⟨kind.wireTag, .scalar, [], whole⟩]
  | .enum _ => [⟨.int32, .scalar, [], whole⟩]
  | .sequence element maxBound =>
    element.wireTag?.toList.map fun tag => ⟨tag, .sequence, wireBound maxBound, whole⟩
  | .array element dims => element.wireTag?.toList.flatMap fun tag => arrayCalls f.site.field tag dims
  | .struct _ | .union _ => []

/-- The calls that move a message, in the order of its fields. -/
def StructOf.wireCalls (s : StructType) : List WireCall :=
  (Target.views s).flatMap FieldView.wireCalls

theorem Element.wireTag?_shape (e : Element) : e.shape.wireTag? = e.wireTag? := by
  cases e <;> rfl

theorem numerals_boundArgument (maxBound : Nat) :
    (boundArgument maxBound).mapM Expr.numeral? = some (wireBound maxBound) := by
  unfold boundArgument wireBound
  by_cases hzero : maxBound = 0
  · rw [if_pos hzero, if_pos hzero]
    rfl
  · rw [if_neg hzero, if_neg hzero]
    rfl

section
variable {side : WireSide} {env : Env}

theorem bodyCalls_append (a b : List Stmt) (calls more : List WireCall)
    (ha : bodyCalls? side a env = some calls) (hb : bodyCalls? side b env = some more) :
    bodyCalls? side (a ++ b) env = some (calls ++ more) := by
  induction a generalizing calls with
  | nil =>
    cases ha
    exact hb
  | cons s rest ih =>
    simp only [bodyCalls?, Option.bind_eq_bind, Option.bind_eq_some_iff] at ha
    obtain ⟨first, hfirst, others, hothers, hcalls⟩ := ha
    cases hcalls
    simp [bodyCalls?, hfirst, ih others hothers]

theorem bodyCalls_flatMap {α : Type} (items : List α) (body : α → List Stmt)
    (calls : α → List WireCall)
    (h : ∀ item ∈ items, bodyCalls? side (body item) env = some (calls item)) :
    bodyCalls? side (items.flatMap body) env = some (items.flatMap calls) := by
  induction items with
  | nil => rfl
  | cons item rest ih =>
    obtain ⟨hitem, hrest⟩ := List.forall_mem_cons.mp h
    exact bodyCalls_append _ _ _ _ hitem (ih hrest)

theorem mapM_counterAt {depth : Nat} {counters : List Expr} {idx : List Nat}
    (h : Counting depth env counters idx) : counters.mapM (counterAt? env) = some idx := by
  rw [option_mapM_eq_some_iff]
  refine h.imp fun e i hcounter => ?_
  obtain ⟨j, _, rfl, hlookup⟩ := hcounter
  simp [counter, counterAt?, hlookup]

theorem location_field (name : String) :
    (Expr.field .value name).location? env = some ⟨name, []⟩ := rfl

theorem location_jaggedAccess {depth : Nat} {base : Expr} {counters : List Expr} {place : Location}
    {idx : List Nat} (hbase : base.location? env = some place)
    (h : Counting depth env counters idx) :
    (jaggedAccess base counters).location? env = some ⟨place.field, place.indices ++ idx⟩ := by
  induction h generalizing base place with
  | nil => simpa [jaggedAccess] using hbase
  | @cons e i counters idx hhead _ ih =>
    have hcounter : counterAt? env e = some i := by
      obtain ⟨j, _, rfl, hlookup⟩ := hhead
      simp [counter, counterAt?, hlookup]
    have hrow : (Expr.index base [e]).location? env = some ⟨place.field, place.indices ++ [i]⟩ := by
      simp [Expr.location?, hbase, hcounter]
    have hrest := ih hrow
    rw [List.append_assoc, List.singleton_append] at hrest
    exact hrest

/-- The element that counters lead to, in both layouts. -/
theorem location_elementAt (layout : Layout) {depth : Nat} (name : String) {counters : List Expr}
    {idx : List Nat} (h : Counting depth env counters idx) :
    (layout.elementAt (.field .value name) counters).location? env = some ⟨name, idx⟩ := by
  cases layout with
  | rectangular => simp [Layout.elementAt, Expr.location?, mapM_counterAt h]
  | jagged => exact location_jaggedAccess (location_field name) h

/-- A place has no cast around it. -/
theorem operand_of_location {e : Expr} {place : Location} (h : e.location? env = some place) :
    e.operand = e := by
  cases e with
  | cast type inner => cases h
  | _ => rfl

/-- The allocation of a row moves nothing. -/
theorem bodyCalls_row (layout : Layout) (name : String) (element : Ty) (dims : List Nat)
    {depth : Nat} {counters : List Expr} {idx : List Nat} (h : Counting depth env counters idx) :
    bodyCalls? side
      (RowAllocation.atLevel (layout.rows? (.field .value name) element dims) counters) env =
        some [] := by
  unfold Layout.rows?
  split
  · unfold RowAllocation.atLevel
    simp only
    split
    · simp [RowAllocation.row, bodyCalls?, Stmt.calls?, Stmt.leafCalls?, Expr.operand,
        location_jaggedAccess (location_field name) h]
    · rfl
  · rfl

/-- A nest over dimensions, inside of loops that have brought it to the indices `o`. -/
theorem bodyCalls_loopNestFrom (rows : Option RowAllocation) (body : List Expr → List Stmt)
    (call : List Nat → WireCall)
    (hrow : ∀ depth env counters idx, Counting depth env counters idx →
      bodyCalls? side (RowAllocation.atLevel rows counters) env = some [])
    (dims : List Nat) (depth : Nat) (env : Env) (outer : List Expr) (o : List Nat)
    (houter : Counting depth env outer o)
    (hbody : ∀ depth env counters idx, Counting depth env counters idx →
      bodyCalls? side (body counters) env = some [call idx]) :
    bodyCalls? side (loopNestFrom rows body depth outer dims) env =
      some ((rowMajor dims).map fun idx => call (o ++ idx)) := by
  induction dims generalizing depth env outer o with
  | nil =>
    rw [loopNestFrom, hbody depth env outer o houter]
    simp [rowMajor]
  | cons d rest ih =>
    have hround : ∀ i : Nat,
        bodyCalls? side (RowAllocation.atLevel rows (outer ++ [counter depth]) ++
            loopNestFrom rows body (depth + 1) (outer ++ [counter depth]) rest)
          ((.counter depth, .int i) :: env) =
        some ((rowMajor rest).map fun idx => call (o ++ i :: idx)) := by
      intro i
      have hcounters := houter.push i
      have hinner := ih (depth + 1) _ (outer ++ [counter depth]) (o ++ [i]) hcounters
      simp only [List.append_assoc, List.singleton_append] at hinner
      exact bodyCalls_append _ _ [] _ (hrow _ _ _ _ hcounters) hinner
    have hrounds : (List.range d).mapM (fun (i : Nat) =>
        bodyCalls? side (RowAllocation.atLevel rows (outer ++ [counter depth]) ++
            loopNestFrom rows body (depth + 1) (outer ++ [counter depth]) rest)
          ((.counter depth, .int i) :: env)) =
        some ((List.range d).map fun i => (rowMajor rest).map fun idx => call (o ++ i :: idx)) := by
      simp only [hround]
      exact List.mapM_pure
    rw [loopNestFrom, bodyCalls?, Stmt.calls?, hrounds]
    simp [bodyCalls?, rowMajor, List.flatMap, Function.comp_def]

theorem bodyCalls_loopNest (rows : Option RowAllocation) (body : List Expr → List Stmt)
    (call : List Nat → WireCall)
    (hrow : ∀ depth env counters idx, Counting depth env counters idx →
      bodyCalls? side (RowAllocation.atLevel rows counters) env = some [])
    (dims : List Nat) (depth : Nat) (env : Env)
    (hbody : ∀ depth env counters idx, Counting depth env counters idx →
      bodyCalls? side (body counters) env = some [call idx]) :
    bodyCalls? side (loopNest depth dims rows body) env = some ((rowMajor dims).map call) :=
  bodyCalls_loopNestFrom rows body call hrow dims depth env [] [] (.nil depth env) hbody

end

namespace Target

variable (t : Target) (depth : Nat) (f : FieldView) (env : Env)

theorem encodeArray_calls (tag : WireTag) (dims : List Nat) :
    bodyCalls? .writer (t.encodeArray depth f tag dims dims.prod) env =
      some (arrayCalls f.site.field tag dims) := by
  unfold encodeArray arrayCalls
  by_cases hmulti : multiDimensional dims = true
  · rw [if_pos hmulti, if_pos hmulti]
    apply bodyCalls_loopNest
    · intro depth env counters idx _
      rfl
    · intro depth env counters idx hcounters
      have hplace := location_elementAt t.layout f.site.field hcounters
      have hoperand := operand_of_location hplace
      simp [bodyCalls?, Stmt.calls?, writeCall, Stmt.leafCalls?, FieldView.value, hoperand, hplace]
  · rw [if_neg hmulti, if_neg hmulti]
    rfl

theorem decodeArray_calls (e : Element) (tag : WireTag) (dims : List Nat) :
    bodyCalls? .reader (t.decodeArray depth f e tag dims dims.prod) env =
      some (arrayCalls f.site.field tag dims) := by
  unfold decodeArray arrayCalls
  by_cases hmulti : multiDimensional dims = true
  · rw [if_pos hmulti, if_pos hmulti]
    have hnew : bodyCalls? .reader [.assign f.value (t.layout.arrayAllocation e.valueType dims)] env =
        some [] := by
      cases t.layout <;> rfl
    refine bodyCalls_append [_] _ [] _ hnew ?_
    apply bodyCalls_loopNest
    · intro depth env counters idx hcounters
      exact bodyCalls_row t.layout f.site.field e.valueType dims hcounters
    · intro depth env counters idx hcounters
      have hplace := location_elementAt t.layout f.site.field hcounters
      simp [bodyCalls?, Stmt.calls?, readCall, Stmt.leafCalls?, FieldView.value, Expr.operand, hplace]
  · rw [if_neg hmulti, if_neg hmulti]
    rfl

/-- The encoding of a field makes the calls of the field. -/
theorem encode_calls (h : f.shape.Encodable) :
    bodyCalls? .writer (t.encode depth f).stmts env = some f.wireCalls := by
  rcases h.cases with ⟨e, tag, hshape, htag⟩ | ⟨en, hshape⟩ | ⟨e, tag, dims, hshape, htag, valid⟩ |
    ⟨e, tag, maxBound, hshape, htag⟩
  · rw [t.encode_scalar depth f e tag hshape htag, FieldView.wireCalls, hshape]
    cases e <;> cases htag <;> rfl
  · rw [t.encode_enum depth f en hshape, FieldView.wireCalls, hshape]
    rfl
  · rw [t.encode_array depth f e tag dims hshape htag valid, t.encodeArray_calls depth f env tag dims,
      FieldView.wireCalls, hshape]
    simp [e.wireTag?_shape, htag]
  · rw [t.encode_sequence depth f e tag maxBound hshape htag, FieldView.wireCalls, hshape]
    simp [bodyCalls?, Stmt.calls?, writeCall, Stmt.leafCalls?, FieldView.value, Expr.operand,
      numerals_boundArgument, location_field, e.wireTag?_shape, htag]

/-- So does its decoding. -/
theorem decode_calls (h : f.shape.Encodable) :
    bodyCalls? .reader (t.decode depth f).stmts env = some f.wireCalls := by
  rcases h.cases with ⟨e, tag, hshape, htag⟩ | ⟨en, hshape⟩ | ⟨e, tag, dims, hshape, htag, valid⟩ |
    ⟨e, tag, maxBound, hshape, htag⟩
  · rw [t.decode_scalar depth f e tag hshape htag, FieldView.wireCalls, hshape]
    cases e <;> cases htag <;> rfl
  · rw [t.decode_enum depth f en hshape, FieldView.wireCalls, hshape]
    rfl
  · rw [t.decode_array depth f e tag dims hshape htag valid, t.decodeArray_calls depth f env e tag dims,
      FieldView.wireCalls, hshape]
    simp [e.wireTag?_shape, htag]
  · rw [t.decode_sequence depth f e tag maxBound hshape htag, FieldView.wireCalls, hshape]
    simp [bodyCalls?, Stmt.calls?, readCall, Stmt.leafCalls?, FieldView.value, Expr.operand,
      numerals_boundArgument, location_field, e.wireTag?_shape, htag]

end Target

end InteropGen

import InteropGen.Proofs.Transfer.Scalars
import InteropGen.Proofs.Wire.Unrolled

/-!
# Messages on the wire

What `Encode` writes for the fields of a message, and how `Decode` takes them off the wire again.

* `Layout.Sendable` — the values of a field that have an encoding;
* `Sends` — the items that stand for a value;
* `exec_encodeFields`, `exec_decodeFields` — the bodies of the two methods.
-/

set_option autoImplicit false

namespace InteropGen

open CSharp

/-- The values of a field that can be encoded. What one call moves as a whole is the business of the
runtime, null included. -/
def Layout.Sendable (layout : Layout) : Shape → Value → Prop
  | .enum e, v => ∃ n, InInt32 n ∧ v = .member e.name.dotted n
  | .array _ dims, v => multiDimensional dims = true → ∃ g, v = layout.arrayValue dims g
  | _, _ => True

/-- The items of an array that goes element by element. -/
def elementItems (tag : WireTag) (dims : List Nat) (g : List Nat → Value) : List WireItem :=
  (rowMajor dims).map fun idx => ⟨tag, .scalar, [], g idx⟩

/-- The items that stand for the value of a field. -/
inductive Sends (layout : Layout) : Shape → Value → List WireItem → Prop
  | scalar (e : Element) (tag : WireTag) (v : Value) (htag : e.wireTag? = some tag) :
      Sends layout e.shape v [⟨tag, .scalar, [], v⟩]
  | enum (e : EnumType) (n : Int) (hn : InInt32 n) :
      Sends layout (.enum e) (.member e.name.dotted n) [⟨.int32, .scalar, [], .int n⟩]
  | sequence (e : Element) (tag : WireTag) (maxBound : Nat) (v : Value)
      (htag : e.wireTag? = some tag) :
      Sends layout (.sequence e.shape maxBound) v [⟨tag, .sequence, wireBound maxBound, v⟩]
  | array (e : Element) (tag : WireTag) (dims : List Nat) (v : Value)
      (htag : e.wireTag? = some tag) (valid : ValidDims dims)
      (hsingle : multiDimensional dims = false) :
      Sends layout (.array e.shape dims) v [⟨tag, .array, [dims.prod], v⟩]
  | elements (e : Element) (tag : WireTag) (dims : List Nat) (g : List Nat → Value)
      (htag : e.wireTag? = some tag) (valid : ValidDims dims)
      (hmulti : multiDimensional dims = true) :
      Sends layout (.array e.shape dims) (layout.arrayValue dims g) (elementItems tag dims g)

theorem Sends.exists {layout : Layout} {shape : Shape} {v : Value} (h : shape.Encodable)
    (hv : layout.Sendable shape v) : ∃ items, Sends layout shape v items := by
  rcases h.cases with ⟨e, tag, hshape, htag⟩ | ⟨en, hshape⟩ | ⟨e, tag, dims, hshape, htag, valid⟩ |
    ⟨e, tag, maxBound, hshape, htag⟩
  · subst hshape
    exact ⟨_, .scalar e tag v htag⟩
  · subst hshape
    obtain ⟨n, hn, rfl⟩ := hv
    exact ⟨_, .enum en n hn⟩
  · subst hshape
    cases hmulti : multiDimensional dims with
    | false => exact ⟨_, .array e tag dims v htag valid hmulti⟩
    | true =>
      obtain ⟨g, rfl⟩ := hv hmulti
      exact ⟨_, .elements e tag dims g htag valid hmulti⟩
  · subst hshape
    exact ⟨_, .sequence e tag maxBound v htag⟩

/-- The items of the fields of a message, in their order. -/
inductive SendsFields (layout : Layout) (values : String → Value) :
    List FieldView → List WireItem → Prop
  | nil : SendsFields layout values [] []
  | cons (f : FieldView) (rest : List FieldView) (items more : List WireItem)
      (first : Sends layout f.shape (values f.site.field) items)
      (others : SendsFields layout values rest more) :
      SendsFields layout values (f :: rest) (items ++ more)

theorem SendsFields.exists {layout : Layout} {values : String → Value} (fields : List FieldView)
    (hencodable : ∀ f ∈ fields, f.shape.Encodable)
    (hvalues : ∀ f ∈ fields, layout.Sendable f.shape (values f.site.field)) :
    ∃ items, SendsFields layout values fields items := by
  induction fields with
  | nil => exact ⟨[], .nil⟩
  | cons f rest ih =>
    obtain ⟨hf, hrest⟩ := List.forall_mem_cons.mp hencodable
    obtain ⟨hv, hothers⟩ := List.forall_mem_cons.mp hvalues
    obtain ⟨items, hitems⟩ := Sends.exists hf hv
    obtain ⟨more, hmore⟩ := ih hrest hothers
    exact ⟨items ++ more, .cons f rest items more hitems hmore⟩

section
variable (m : Machine) (lib : Library)

theorem exec_writeCall {tag : WireTag} {form : WireForm} {value : Expr} {spelled : List Expr}
    (arguments : List Nat) (harguments : spelled.mapM Expr.numeral? = some arguments) {v : Value}
    {env : Env} {st : State} (hvalue : value.eval m lib env st = some (v, st)) :
    execAll m lib [writeCall tag form (value :: spelled)] env st =
      some (env, { st with wire := st.wire ++ [⟨tag, form, arguments, v⟩] }) := by
  simp [execAll, writeCall, Stmt.exec, Expr.run, Expr.eval, hvalue, harguments]

theorem eval_readCall {tag : WireTag} {form : WireForm} (spelled : List Expr)
    (arguments : List Nat) (harguments : spelled.mapM Expr.numeral? = some arguments) {v : Value}
    {rest : List WireItem} (env : Env) {st : State}
    (hwire : st.wire = ⟨tag, form, arguments, v⟩ :: rest) :
    (Expr.invoke (.var .reader) (.read tag form) spelled).eval m lib env st =
      some (v, { st with wire := rest }) := by
  simp [Expr.eval, State.read?, harguments, hwire]

theorem elementItems_flat (tag : WireTag) {dims idx : List Nat} (g : List Nat → Value)
    (h : InBounds dims idx) :
    (elementItems tag dims g)[flat dims idx]? = some ⟨tag, .scalar, [], g idx⟩ := by
  rw [elementItems, List.getElem?_map, rowMajor_getElem_flat h]
  rfl

theorem elementItems_length (tag : WireTag) (dims : List Nat) (g : List Nat → Value) :
    (elementItems tag dims g).length = dims.prod := by
  rw [elementItems, List.length_map, rowMajor_length]

theorem eval_cast {type : Ty} {e : Expr} {v x : Value} {env : Env} {st st' : State}
    (heval : e.eval m lib env st = some (v, st')) (hcast : m.cast? type v = some x) :
    (Expr.cast type e).eval m lib env st = some (x, st') := by
  simp [Expr.eval, heval, hcast]

/-- An array of several dimensions, written element by element. -/
theorem exec_encodeElements (layout : Layout) (tag : WireTag) (name path : String)
    (fields : String → Value) (dims : List Nat) (valid : ValidDims dims) (g : List Nat → Value)
    (hvalue : fields name = layout.arrayValue dims g) (depth : Nat) (env : Env) (st : State)
    (hself : st.self = .record path fields) :
    execAll m lib (loopNest depth dims none fun indices =>
        [writeCall tag .scalar [layout.elementAt (.field .value name) indices]]) env st =
      some (env, { st with wire := st.wire ++ elementItems tag dims g }) := by
  let items := elementItems tag dims g
  let Inv : Nat → State → Prop := fun k st' => st' = { st with wire := st.wire ++ items.take k }
  have hround : ∀ idx, InBounds dims idx → ∀ env' counters,
      Counting (depth + dims.length) env' counters idx → env.SameLocals env' →
      ∀ st₁, Inv (flat dims idx) st₁ → ∃ pre st₂,
        execAll m lib [writeCall tag .scalar [layout.elementAt (.field .value name) counters]] env'
          st₁ = some (pre ++ env', st₂) ∧ Inv (flat dims idx + 1) st₂ := by
    intro idx hidx env' counters hcounters _ st₁ hinv
    subst hinv
    obtain ⟨around, harray, hplace⟩ := exists_placeAt_elementAt m lib layout valid hidx g
    have place := hplace _ _ _ _ _ _ (placeAt_field m lib env' .value name path fields) hcounters
    let st₁ : State := { st with wire := st.wire ++ items.take (flat dims idx) }
    have hget : st₁.get .value = .record path (Function.update fields name (around (g idx))) := by
      rw [harray, ← hvalue, Function.update_eq_self]
      exact hself
    refine ⟨[], _, exec_writeCall m lib [] rfl (place.eval st₁ _ hget), ?_⟩
    have htake : items.take (flat dims idx + 1) =
        items.take (flat dims idx) ++ [⟨tag, .scalar, [], g idx⟩] := by
      rw [List.take_add_one, elementItems_flat tag g hidx]
      rfl
    simp only [Inv, htake, List.append_assoc]
  obtain ⟨st', hexec, hend⟩ := exec_loopNest m lib Inv _ dims valid depth env st hround
    (by simp [Inv])
  rw [hexec, hend, ← elementItems_length tag dims g, List.take_length]

/-- The same array, read back into an object that holds anything in its place. -/
theorem exec_decodeElements (layout : Layout) (element : Ty) (tag : WireTag) (name path : String)
    (olds : String → Value) (dims : List Nat) (valid : ValidDims dims) (g : List Nat → Value)
    (rest : List WireItem) (depth : Nat) (env : Env) (st : State)
    (hself : st.self = .record path olds) (hwire : st.wire = elementItems tag dims g ++ rest) :
    execAll m lib (.assign (.field .value name) (layout.arrayAllocation element dims) ::
        loopNest depth dims (layout.rows? (.field .value name) element dims) fun indices =>
          [readCall (layout.elementAt (.field .value name) indices) tag .scalar []]) env st =
      some (env, { st with
        self := .record path (Function.update olds name (layout.arrayValue dims g))
        wire := rest }) := by
  let items := elementItems tag dims g
  let root : Value → Value := fun x => .record path (Function.update olds name x)
  let states : Nat → State := fun k => { st with wire := items.drop k ++ rest }
  have hplace : ∀ env, PlaceAt m lib env (.field .value name) .value root := fun env =>
    placeAt_field m lib env .value name path olds
  have hfresh : (Stmt.assign (.field .value name) (layout.arrayAllocation element dims)).exec m lib
      env st =
      some (env, (states 0).set .value (root (layout.freshArray (lib.zero element) dims))) := by
    have hstates : states 0 = st := by
      simp only [states, List.drop_zero, items, ← hwire]
    have hget : st.get .value = root (olds name) := by
      simp only [root, Function.update_eq_self]
      exact hself
    rw [hstates]
    exact exec_freshArray m lib layout (hplace env) element valid.nonempty hget
  have hbody : FillsElement m lib layout (.field .value name) dims depth env states
      (lib.zero element) g fun indices =>
        [readCall (layout.elementAt (.field .value name) indices) tag .scalar []] := by
    intro idx hidx env' counters root' hcounters _ place
    let before := (states (flat dims idx)).set .value (root' (lib.zero element))
    have hlt : flat dims idx < items.length := by
      rw [elementItems_length]
      exact flat_lt hidx
    have hitem : items[flat dims idx] = ⟨tag, .scalar, [], g idx⟩ :=
      Option.some.inj ((List.getElem?_eq_getElem hlt).symm.trans (elementItems_flat tag g hidx))
    have hhead : before.wire =
        ⟨tag, .scalar, [], g idx⟩ :: (items.drop (flat dims idx + 1) ++ rest) := by
      simp only [before, states, State.set]
      rw [List.drop_eq_getElem_cons hlt, hitem, List.cons_append]
    have hread := eval_readCall m lib [] [] rfl env' hhead
    have hassign := (place env' hcounters).assign
      { before with wire := items.drop (flat dims idx + 1) ++ rest } (lib.zero element) (g idx) rfl
    exact ⟨[], execAll_cons m lib _ [] env' env' before _ (exec_assign m lib _ _ _ env' env' before _ _
      hread hassign)⟩
  have hlast : items.drop dims.prod = [] :=
    List.drop_eq_nil_of_le (Nat.le_of_eq (elementItems_length tag dims g))
  rw [execAll_cons m lib _ _ _ _ _ _ hfresh,
    exec_fill m lib layout _ root hplace element dims valid depth env states g _ hbody]
  simp only [states, hlast, List.nil_append]
  rfl

end

section
variable (m : Machine) (lib : Library) {t : Target}

/-- The encoding of a field. -/
theorem exec_encode (f : FieldView) (v : Value) (items : List WireItem)
    (sends : Sends t.layout f.shape v items) (depth : Nat) (env : Env) (path : String)
    (fields : String → Value) (hvalue : fields f.site.field = v) (st : State)
    (hself : st.self = .record path fields) :
    execAll m lib (t.encode depth f).stmts env st =
      some (env, { st with wire := st.wire ++ items }) := by
  have hfield : f.value.eval m lib env st = some (v, st) := by
    simp [FieldView.value, Expr.eval, State.get, hself, Value.field?, hvalue]
  generalize hshape : f.shape = shape at sends
  cases sends with
  | scalar e tag v htag =>
    rw [t.encode_scalar depth f e tag hshape htag]
    exact exec_writeCall m lib [] rfl hfield
  | enum en n hn =>
    rw [t.encode_enum depth f en hshape]
    exact exec_writeCall m lib [] rfl
      (eval_cast m lib hfield (int_cast_member m en.name.dotted n hn))
  | sequence e tag maxBound v htag =>
    rw [t.encode_sequence depth f e tag maxBound hshape htag]
    exact exec_writeCall m lib _ (numerals_boundArgument maxBound) hfield
  | array e tag dims v htag valid hsingle =>
    rw [t.encode_array depth f e tag dims hshape htag valid, Target.encodeArray, hsingle]
    exact exec_writeCall m lib [dims.prod] rfl hfield
  | elements e tag dims g htag valid hmulti =>
    rw [t.encode_array depth f e tag dims hshape htag valid, Target.encodeArray, if_pos hmulti]
    exact exec_encodeElements m lib t.layout tag f.site.field path fields dims valid g hvalue depth
      env st hself

/-- The decoding of a field takes its items off the wire and leaves the value in the object. -/
theorem exec_decode (f : FieldView) (v : Value) (items : List WireItem)
    (sends : Sends t.layout f.shape v items)
    (henum : ∀ en, f.shape = .enum en → m.isEnum en.name.dotted = true) (depth : Nat) (env : Env)
    (path : String) (olds : String → Value) (rest : List WireItem) (st : State)
    (hself : st.self = .record path olds) (hwire : st.wire = items ++ rest) :
    execAll m lib (t.decode depth f).stmts env st =
      some (env, { st with self := .record path (Function.update olds f.site.field v), wire := rest }) := by
  have hassign : ∀ value, value.eval m lib env st = some (v, { st with wire := rest }) →
      execAll m lib [.assign f.value value] env st = some (env, { st with
        self := .record path (Function.update olds f.site.field v), wire := rest }) := by
    intro value hvalue
    have place := placeAt_field m lib env .value f.site.field path olds
    have hget : State.get { st with wire := rest } .value =
        .record path (Function.update olds f.site.field (olds f.site.field)) := by
      rw [Function.update_eq_self]
      exact hself
    exact execAll_cons m lib _ [] env env st _ (exec_assign m lib _ _ v env env st _ _ hvalue
      (place.assign _ _ v hget))
  generalize hshape : f.shape = shape at sends
  cases sends with
  | scalar e tag v htag =>
    rw [t.decode_scalar depth f e tag hshape htag]
    exact hassign _ (eval_readCall m lib [] [] rfl env hwire)
  | enum en n hn =>
    rw [t.decode_enum depth f en hshape]
    exact hassign _ (eval_cast m lib (eval_readCall m lib [] [] rfl env hwire)
      (enum_cast m en.name.dotted (henum en hshape) (.int n) n rfl hn))
  | sequence e tag maxBound v htag =>
    rw [t.decode_sequence depth f e tag maxBound hshape htag]
    exact hassign _ (eval_readCall m lib _ _ (numerals_boundArgument maxBound) env hwire)
  | array e tag dims v htag valid hsingle =>
    rw [t.decode_array depth f e tag dims hshape htag valid, Target.decodeArray, hsingle]
    exact hassign _ (eval_readCall m lib [.nat dims.prod] [dims.prod] rfl env hwire)
  | elements e tag dims g htag valid hmulti =>
    rw [t.decode_array depth f e tag dims hshape htag valid, Target.decodeArray, if_pos hmulti]
    exact exec_decodeElements m lib t.layout e.valueType tag f.site.field path olds dims valid g rest
      depth env st hself hwire

/-- The body of `Encode` appends the items of the fields to the wire. -/
theorem exec_encodeFields {fields : List FieldView} {values : String → Value}
    {items : List WireItem} (sends : SendsFields t.layout values fields items) (path : String)
    (env : Env) (st : State) (hself : st.self = .record path values) :
    execAll m lib (bodyOf fields t.encode) env st =
      some (env, { st with wire := st.wire ++ items }) := by
  induction sends generalizing st with
  | nil => simp [bodyOf, execAll]
  | cons f rest items more hfirst hrest ih =>
    have hexec := exec_encode m lib f _ items hfirst 0 env path values rfl st hself
    rw [bodyOf, List.flatMap_cons, execAll_append m lib _ _ env env st _ hexec]
    have hothers := ih { st with wire := st.wire ++ items } hself
    simp only [List.append_assoc] at hothers
    exact hothers

/-- The body of `Decode` takes them off again and leaves the values in the fields. All other fields
keep what they hold. -/
theorem exec_decodeFields {fields : List FieldView} {values : String → Value}
    {items : List WireItem} (sends : SendsFields t.layout values fields items)
    (henums : ∀ f ∈ fields, ∀ en, f.shape = .enum en → m.isEnum en.name.dotted = true)
    (path : String) (olds : String → Value) (remaining : List WireItem) (env : Env) (st : State)
    (hself : st.self = .record path olds) (hwire : st.wire = items ++ remaining) :
    execAll m lib (bodyOf fields t.decode) env st = some (env, { st with
      self := .record path fun name =>
        if name ∈ fields.map (·.site.field) then values name else olds name
      wire := remaining }) := by
  induction sends generalizing olds st with
  | nil =>
    simp only [List.nil_append] at hwire
    simp [bodyOf, execAll, ← hself, ← hwire]
  | cons f rest items more hfirst hrest ih =>
    obtain ⟨henum, henumsRest⟩ := List.forall_mem_cons.mp henums
    rw [List.append_assoc] at hwire
    have hexec := exec_decode m lib f _ items hfirst henum 0 env path olds (more ++ remaining) st hself hwire
    rw [bodyOf, List.flatMap_cons, execAll_append m lib _ _ env env st _ hexec]
    have hothers := ih henumsRest (Function.update olds f.site.field (values f.site.field))
      { st with
        self := .record path (Function.update olds f.site.field (values f.site.field))
        wire := more ++ remaining } rfl rfl
    rw [bodyOf] at hothers
    rw [hothers]
    have hfields : (fun name => if name ∈ rest.map (·.site.field) then values name
          else Function.update olds f.site.field (values f.site.field) name) =
        fun name => if name ∈ (f :: rest).map (·.site.field) then values name else olds name := by
      funext name
      by_cases hname : name = f.site.field
      · subst hname
        simp
      · simp [hname]
    rw [hfields]

end

end InteropGen

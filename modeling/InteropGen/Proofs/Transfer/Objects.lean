import InteropGen.Proofs.Transfer.FromNative
import InteropGen.Proofs.Transfer.Initial

/-!
# Value objects from the native side

Objects of a compiled struct can be constructed, and its `FromNative` puts the value into any object
that a transfer struct represents (`reads`). The proof is an induction on how deeply structs are
nested; inside a struct, field after field.
-/

set_option autoImplicit false

namespace InteropGen

open CSharp

section
variable {m : Machine} {t : Target} {lib : Library}

/-- The first values of properties, one after the other. Other properties stay as they are. -/
theorem exec_fieldsInitial (fields : List FieldView)
    (hfields : ∀ f ∈ fields, f.shape.Transferable t.layout ∧
      (∀ s ∈ f.shape.structs, Constructs m lib s) ∧
      ∀ element maxBound, f.shape = .sequence element maxBound → maxBound ≤ 2147483647) :
    ∃ fill : (String → Value) → String → Value,
      (∀ vals name, name ∉ fields.map (·.site.field) → fill vals name = vals name) ∧
      ∀ p vals (st : State), st.self = .record p vals →
        execAll m lib (bodyOf fields t.initial) [] st =
          some ([], st.set .value (.record p (fill vals))) := by
  induction fields with
  | nil =>
    refine ⟨id, fun _ _ _ => rfl, ?_⟩
    intro p vals st hself
    rw [State.set, id, ← hself]
    rfl
  | cons f rest ih =>
    obtain ⟨⟨htransferable, hconstructs, hbound⟩, hrest⟩ := List.forall_mem_cons.mp hfields
    obtain ⟨fill, hothers, hexecRest⟩ := ih hrest
    obtain ⟨x, hexec⟩ := exec_initial f 0 htransferable hconstructs hbound
    refine ⟨fun vals => fill (Function.update vals f.site.field x), ?_, ?_⟩
    · intro vals name hname
      rw [List.map_cons, List.mem_cons, not_or] at hname
      exact (hothers _ name hname.2).trans (Function.update_of_ne hname.1 ..)
    · intro p vals st hself
      rw [bodyOf, List.flatMap_cons, execAll_append m lib _ _ [] [] st _ (hexec p vals st hself)]
      exact hexecRest p _ _ rfl

/-- What a field needs of the declarations around it, to be read. -/
structure ShapeReads (m : Machine) (t : Target) (lib : Library) (shape : Shape) : Prop where
  enum : ∀ e ∈ shape.enums, DeclaresEnum m t e
  struct : ∀ s ∈ shape.structs, Reads m t lib s
  bound : ∀ element maxBound, shape = .sequence element maxBound → maxBound ≤ 2147483647

theorem ShapeReads.element {shape : Shape} (reads : ShapeReads m t lib shape) {e : Element}
    (henums : shape.enums = e.shape.enums) (hstructs : shape.structs = e.shape.structs) :
    ElementReads m t lib e where
  enum en h := reads.enum en (henums ▸ mem_enums_element h)
  struct s h := reads.struct s (hstructs ▸ mem_structs_element h)

/-- Reading one field. -/
theorem exec_fromNative (f : FieldView) (depth : Nat)
    (htransferable : f.shape.Transferable t.layout) (reads : ShapeReads m t lib f.shape)
    (p q : String) (olds natives : String → Value) (v : Value) (st : State) (lo hi : Nat)
    (typed : Typed m t true f.shape v)
    (rep : Represents m t st.memory lo hi f.shape v (natives f.site.field))
    (hself : st.self = .record p olds) (hwrapper : st.wrapper = .record q natives) :
    execAll m lib (t.fromNative depth f).stmts [] st =
      some ([], st.set .value (.record p (Function.update olds f.site.field v))) := by
  let name := f.site.field
  let around : Value → Value := fun x => .record p (Function.update olds name x)
  have hvalue : ∀ env, PlaceAt m lib env f.value .value around :=
    fun env => placeAt_field m lib env .value name p olds
  have hself' : st.self = around (olds name) := by
    rw [hself]
    simp only [around, Function.update_eq_self]
  have hnative : ∀ env st', st'.wrapper = st.wrapper →
      f.native.eval m lib env st' = some (natives name, st') := by
    intro env st' hst'
    have hrecord : st'.get .transfer = .record q natives := hst'.trans hwrapper
    simp [FieldView.native, Expr.eval, hrecord, Value.field?, name]
  rcases htransferable.cases with ⟨e, hshape⟩ | ⟨e, dims, hshape, valid⟩ | ⟨e, maxBound, hshape, hbridges⟩
  · rw [t.fromNative_element depth f e hshape]
    rw [hshape] at typed rep reads
    exact exec_elementFromNative e (reads.element rfl rfl) [] f.value f.native around (hvalue []) v
      _ _ st lo hi (hnative []) typed rep hself'
  · rw [t.fromNative_array depth f e dims hshape valid]
    rw [hshape] at typed rep reads
    have helement : ElementReads m t lib e := reads.element rfl rfl
    cases htransfer : e.transfer dims with
    | inline length =>
      exact exec_readInlineArray e helement f dims length htransfer around hvalue v _ _ depth st lo hi
        hnative typed rep hself'
    | outOfLine length =>
      exact exec_readOutOfLineArray e helement f dims length htransfer around hvalue v _ _ depth st lo
        hi hnative typed rep hself'
  · rw [t.fromNative_sequence depth f e maxBound hshape hbridges]
    rw [hshape] at typed rep reads
    exact exec_readSequence e (reads.element rfl rfl) f maxBound (reads.bound _ _ rfl) around hvalue
      v _ _ depth st lo hi hnative typed rep hself'

/-- Reading fields in order. -/
theorem exec_fieldsFromNative (fields : List FieldView)
    (hfields : ∀ f ∈ fields, f.shape.Transferable t.layout ∧ ShapeReads m t lib f.shape)
    (p q : String) (olds vals natives : String → Value) (st : State) (lo hi : Nat)
    (typed : ∀ f ∈ fields, Typed m t true f.shape (vals f.site.field))
    (reps : ∀ f ∈ fields, Represents m t st.memory lo hi f.shape (vals f.site.field)
      (natives f.site.field))
    (hself : st.self = .record p olds) (hwrapper : st.wrapper = .record q natives) :
    execAll m lib (bodyOf fields t.fromNative) [] st = some ([], st.set .value (.record p
      fun name => if name ∈ fields.map (·.site.field) then vals name else olds name)) := by
  induction fields generalizing olds st with
  | nil =>
    have hsame : st.set .value (.record p olds) = st := by
      rw [← hself]
      rfl
    simp [bodyOf, execAll, hsame]
  | cons f rest ih =>
    obtain ⟨hf, hrest⟩ := List.forall_mem_cons.mp hfields
    obtain ⟨htyped, htypedRest⟩ := List.forall_mem_cons.mp typed
    obtain ⟨hrep, hrepsRest⟩ := List.forall_mem_cons.mp reps
    have hexec := exec_fromNative f 0 hf.1 hf.2 p q olds natives (vals f.site.field) st lo hi htyped
      hrep hself hwrapper
    rw [bodyOf, List.flatMap_cons, execAll_append m lib _ _ [] [] st _ hexec]
    have hexecRest := ih hrest (Function.update olds f.site.field (vals f.site.field))
      (st.set .value (.record p (Function.update olds f.site.field (vals f.site.field)))) htypedRest
      hrepsRest rfl hwrapper
    refine hexecRest.trans ?_
    have hsame : (fun name => if name ∈ rest.map (·.site.field) then vals name
        else Function.update olds f.site.field (vals f.site.field) name) =
        fun name => if name ∈ (f :: rest).map (·.site.field) then vals name else olds name := by
      funext name
      by_cases hname : name = f.site.field
      · subst hname
        simp
      · simp [hname]
    rw [hsame]
    rfl

/-- Objects of a compiled struct can be constructed, if calls may nest as deeply as structs do. -/
theorem constructs (wireCodec : Bool) (depth : Nat) (s : StructType) (hdepth : s.nesting ≤ depth)
    (compiled : Compiled m t wireCodec s) : Constructs m (m.library depth) s := by
  induction depth generalizing s with
  | zero =>
    rw [nesting_eq] at hdepth
    omega
  | succ depth ih =>
    obtain ⟨c, transfers, declares⟩ := compiled.hosts.declares
    have hnested : ∀ f ∈ s.fields, ∀ inner ∈ f.type.shape.structs,
        Constructs m (m.library depth) inner := by
      intro f hf inner hinner
      have hlt := nesting_lt s inner f hf hinner
      exact ih inner (by omega) (compiled.field f hf hinner)
    obtain ⟨fill, hothers, hexec⟩ := exec_fieldsInitial (Target.views s)
      (forall_mem_views fun f hf =>
        ⟨declares.transferable f hf, hnested f hf, compiled.hosts.bounds f hf⟩)
    let blank : String → Value := fun name =>
      ((c.properties.find? (·.2 = name)).map fun p => (m.library (depth + 1)).zero p.1).getD .null
    refine ⟨.record s.name.dotted (fill blank), ⟨_, rfl, ?_⟩, ?_⟩
    · intro name hname
      rw [hothers blank name (by rw [views_names]; exact hname)]
      have hnone : c.properties.find? (·.2 = name) = none := by
        rw [List.find?_eq_none]
        intro property hproperty
        have hmem := List.mem_map_of_mem (f := (·.2)) hproperty
        rw [declares.bodies.properties, views_names] at hmem
        intro heq
        exact hname (of_decide_eq_true heq ▸ hmem)
      simp only [blank, hnone]
      rfl
    · intro st
      have hcall := library_call declares depth .constructor
        { st with self := .record s.name.dotted blank, wrapper := .null } _ (by
          rw [ValueClass.body, declares.bodies.constructor]
          exact hexec _ _ _ rfl)
      simp only [Machine.construct?, valueTypeOf, declares.value]
      rw [hcall]
      rfl

/-- The methods of a compiled struct read it back, if calls may nest as deeply as structs do. -/
theorem reads (wireCodec : Bool) (depth : Nat) (s : StructType) (hdepth : s.nesting ≤ depth)
    (compiled : Compiled m t wireCodec s) : Reads m t (m.library depth) s := by
  induction depth generalizing s with
  | zero =>
    rw [nesting_eq] at hdepth
    omega
  | succ depth ih =>
    refine ⟨constructs wireCodec (depth + 1) s hdepth compiled, ?_⟩
    intro object v native lo hi st hobject typed rep hself hwrapper
    obtain ⟨c, transfers, declares⟩ := compiled.hosts.declares
    obtain ⟨olds, rfl, holds⟩ := hobject
    cases typed with
    | struct _ vals hvals hothers =>
    cases rep with
    | struct _ _ natives hreps =>
    have hready : ∀ f ∈ Target.views s,
        f.shape.Transferable t.layout ∧ ShapeReads m t (m.library depth) f.shape :=
      forall_mem_views fun f hf => ⟨declares.transferable f hf,
        fun e he => (compiled.hosts.enums f hf e he).declares, by
          intro inner hinner
          have hlt := nesting_lt s inner f hf hinner
          exact ih inner (by omega) (compiled.field f hf hinner), compiled.hosts.bounds f hf⟩
    have hexec := exec_fieldsFromNative (Target.views s) hready _ _ olds vals natives st lo hi
      (forall_mem_views hvals) (forall_mem_views hreps) hself hwrapper
    have hwhole : (fun name => if name ∈ (Target.views s).map (·.site.field) then vals name
        else olds name) = vals := by
      funext name
      rw [views_names]
      by_cases hname : name ∈ s.fields.map (·.name)
      · rw [if_pos hname]
      · rw [if_neg hname, holds name hname, hothers name hname]
    rw [hwhole] at hexec
    refine library_call declares depth .fromNative st _ ?_
    rw [ValueClass.body, declares.bodies.fromNative]
    exact hexec

end

end InteropGen

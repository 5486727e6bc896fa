import InteropGen.Proofs.Transfer.Compiled
import InteropGen.Proofs.Transfer.ToNative

/-!
# Structs on their way to the native side

The `ToNative` of a struct runs to its end on every well-formed value, and the transfer struct that
it leaves represents the value (`converts`). The proof is an induction on how deeply structs are
nested; inside a struct, field after field.
-/

set_option autoImplicit false

namespace InteropGen

open CSharp

section
variable {m : Machine} {t : Target} {lib : Library}

/-- What a field needs of the declarations around it, to be converted. -/
structure ShapeConverts (m : Machine) (t : Target) (lib : Library) (shape : Shape) : Prop where
  enum : ∀ e ∈ shape.enums, DeclaresEnum m t e
  struct : ∀ s ∈ shape.structs, Converts m t lib s
  bound : ∀ element maxBound, shape = .sequence element maxBound → maxBound ≤ 2147483647

theorem ShapeConverts.element {shape : Shape} (converts : ShapeConverts m t lib shape) {e : Element}
    (henums : shape.enums = e.shape.enums) (hstructs : shape.structs = e.shape.structs) :
    ElementConverts m t lib e where
  enum en h := converts.enum en (henums ▸ mem_enums_element h)
  struct s h := converts.struct s (hstructs ▸ mem_structs_element h)

/-- The conversion of one field. -/
theorem exec_toNative (strict : Bool) (f : FieldView) (depth : Nat)
    (htransferable : f.shape.Transferable t.layout) (converts : ShapeConverts m t lib f.shape)
    (p q : String) (vals ws : String → Value) (st : State)
    (typed : Typed m t strict f.shape (vals f.site.field))
    (storage : Storage t f.shape (ws f.site.field)) (hself : st.self = .record p vals)
    (hwrapper : st.wrapper = .record q ws) :
    ∃ native st', execAll m lib (t.toNative depth f).stmts [] st = some ([], st') ∧
      st'.self = st.self ∧ st'.wrapper = .record q (Function.update ws f.site.field native) ∧
      Marshals st st' ∧
      Represents m t st'.memory st.memory.next st'.memory.next f.shape (vals f.site.field)
        native := by
  let name := f.site.field
  let valueAround : Value → Value := fun x => .record p (Function.update vals name x)
  let placeAround : Value → Value := fun x => .record q (Function.update ws name x)
  have hvalue : ∀ env, PlaceAt m lib env f.value .value valueAround :=
    fun env => placeAt_field m lib env .value name p vals
  have hplace : ∀ env, PlaceAt m lib env f.native .transfer placeAround :=
    fun env => placeAt_field m lib env .transfer name q ws
  have hself' : st.self = valueAround (vals name) := by
    rw [hself]
    simp only [valueAround, Function.update_eq_self]
  have hwrapper' : st.wrapper = placeAround (ws name) := by
    rw [hwrapper]
    simp only [placeAround, Function.update_eq_self]
  rcases htransferable.cases with ⟨e, hshape⟩ | ⟨e, dims, hshape, valid⟩ | ⟨e, maxBound, hshape, hbridges⟩
  · rw [t.toNative_element depth f e hshape]
    rw [hshape] at typed storage converts ⊢
    exact exec_elementToNative strict e (converts.element rfl rfl) [] f.value f.native valueAround placeAround
      (hvalue []) (hplace []) (vals name) (ws name) st typed storage hself' hwrapper'
  · rw [t.toNative_array depth f e dims hshape valid]
    rw [hshape] at typed converts ⊢
    have helement : ElementConverts m t lib e := converts.element rfl rfl
    cases htransfer : e.transfer dims with
    | inline length =>
      exact exec_inlineArray strict e helement f dims length htransfer valueAround placeAround hvalue
        hplace (vals name) (ws name) depth st typed hself' hwrapper'
    | outOfLine length =>
      exact exec_outOfLineArray strict e helement f dims length htransfer valueAround placeAround
        hvalue hplace (vals name) (ws name) depth st typed hself' hwrapper'
  · rw [t.toNative_sequence depth f e maxBound hshape hbridges]
    rw [hshape] at typed converts ⊢
    exact exec_sequence strict e (converts.element rfl rfl) f maxBound (converts.bound _ _ rfl)
      valueAround placeAround hvalue hplace (vals name) (ws name) depth st typed hself' hwrapper'

/-- The conversion of fields in order. Fields converted before stay as they are, because the names
are distinct. -/
theorem exec_fieldsToNative (strict : Bool) (fields : List FieldView)
    (hfields : ∀ f ∈ fields, f.shape.Transferable t.layout ∧ ShapeConverts m t lib f.shape)
    (hdistinct : (fields.map (·.site.field)).Nodup) (p q : String) (vals ws : String → Value)
    (st : State) (typed : ∀ f ∈ fields, Typed m t strict f.shape (vals f.site.field))
    (storage : ∀ f ∈ fields, Storage t f.shape (ws f.site.field)) (hself : st.self = .record p vals)
    (hwrapper : st.wrapper = .record q ws) :
    ∃ natives st', execAll m lib (bodyOf fields t.toNative) [] st = some ([], st') ∧
      st'.self = st.self ∧ st'.wrapper = .record q natives ∧ Marshals st st' ∧
      (∀ f ∈ fields, Represents m t st'.memory st.memory.next st'.memory.next f.shape
        (vals f.site.field) (natives f.site.field)) ∧
      ∀ name, name ∉ fields.map (·.site.field) → natives name = ws name := by
  induction fields generalizing ws st with
  | nil => exact ⟨ws, st, rfl, rfl, hwrapper, .refl st, by simp, fun _ _ => rfl⟩
  | cons f rest ih =>
    obtain ⟨hf, hrest⟩ := List.forall_mem_cons.mp hfields
    obtain ⟨htyped, htypedRest⟩ := List.forall_mem_cons.mp typed
    obtain ⟨hstorage, hstorageRest⟩ := List.forall_mem_cons.mp storage
    rw [List.map_cons, List.nodup_cons] at hdistinct
    obtain ⟨hnotin, hdistinctRest⟩ := hdistinct
    have hne : ∀ g ∈ rest, g.site.field ≠ f.site.field := by
      intro g hg heq
      exact hnotin (heq ▸ List.mem_map_of_mem hg)
    obtain ⟨native, st₁, hexec, hself₁, hwrapper₁, hmarshals, hrep⟩ :=
      exec_toNative strict f 0 hf.1 hf.2 p q vals ws st htyped hstorage hself hwrapper
    obtain ⟨natives, st₂, hexecRest, hself₂, hwrapper₂, hmarshals₂, hreps, hothers⟩ :=
      ih hrest hdistinctRest (Function.update ws f.site.field native) st₁ htypedRest
        (by
          intro g hg
          rw [Function.update_of_ne (hne g hg)]
          exact hstorageRest g hg)
        (hself₁.trans hself) hwrapper₁
    have hkept : natives f.site.field = native := by
      rw [hothers _ hnotin, Function.update_self]
    refine ⟨natives, st₂, ?_, hself₂.trans hself₁, hwrapper₂, hmarshals.trans hmarshals₂, ?_, ?_⟩
    · rw [bodyOf, List.flatMap_cons, execAll_append m lib _ _ [] [] st st₁ hexec]
      exact hexecRest
    · rw [List.forall_mem_cons]
      refine ⟨?_, ?_⟩
      · rw [hkept]
        exact hrep.extend hmarshals₂.memory
      · intro g hg
        exact (hreps g hg).mono hmarshals.memory.next_le (Nat.le_refl _) fun _ _ _ => rfl
    · intro name hname
      rw [List.map_cons, List.mem_cons, not_or] at hname
      rw [hothers name hname.2, Function.update_of_ne hname.1]

/-- The field of a transfer struct that belongs to a field. -/
theorem Declares.field {wireCodec : Bool} {s : StructType} {c : ValueClass} {transfers : TransferStruct}
    (declares : Declares m t wireCodec s c transfers) (hdistinct : (s.fields.map (·.name)).Nodup) (f : Field)
    (hf : f ∈ s.fields) :
    ∃ field, t.transferType (.of s.name.qualified f) = .ok field.type ∧
      transfers.fields.find? (·.name = f.name) = some field := by
  have hfields := declares.fields
  simp only [Target.transferStruct, except_bind_ok_iff] at hfields
  obtain ⟨fields, hmapM, hresult⟩ := hfields
  cases hresult
  obtain ⟨field, hfield, hfind⟩ := except_mapM_find t.transferField (·.name) (·.site.field)
    (by
      intro view field hfield
      simp only [Target.transferField, except_bind_ok_iff] at hfield
      obtain ⟨_, _, _, _, hresult⟩ := hfield
      cases hresult
      rfl)
    (Target.views s) fields hmapM (by rw [views_names]; exact hdistinct) (.of s.name.qualified f)
    (List.mem_map_of_mem hf)
  refine ⟨field, ?_, hfind⟩
  simp only [Target.transferField, except_bind_ok_iff] at hfield
  obtain ⟨_, _, _, htype, hresult⟩ := hfield
  cases hresult
  exact htype

/-- What the fields of a compiled struct need, if the methods of nested structs are at hand. -/
theorem Compiled.shapeConverts {wireCodec : Bool} {s : StructType}
    (compiled : Compiled m t wireCodec s)
    (hnested : ∀ f ∈ s.fields, ∀ inner ∈ f.type.shape.structs, Converts m t lib inner) (f : Field)
    (hf : f ∈ s.fields) : ShapeConverts m t lib f.type.shape where
  enum e he := (compiled.hosts.enums f hf e he).declares
  struct := hnested f hf
  bound := compiled.hosts.bounds f hf

/-- The transfer structs of a compiled struct have those of nested structs in place. -/
theorem Compiled.fresh {wireCodec : Bool} {depth : Nat} {s : StructType}
    (compiled : Compiled m t wireCodec s)
    (hnested : ∀ f ∈ s.fields, ∀ inner ∈ f.type.shape.structs,
      Converts m t (m.library depth) inner) :
    Storage t (.struct s) ((m.library (depth + 1)).zero (t.transferTypeOf s.name)) := by
  obtain ⟨c, transfers, declares⟩ := compiled.hosts.declares
  simp only [Machine.library, Target.transferTypeOf, Machine.zeroIn, declares.transfer]
  refine .struct s _ ?_
  intro f hf
  obtain ⟨field, htype, hfind⟩ := declares.field compiled.hosts.distinct f hf
  by_cases hstruct : ∃ inner, f.type.shape = .struct inner
  · obtain ⟨inner, hshape⟩ := hstruct
    have hview : (FieldView.of s.name.qualified f).shape = .struct inner := hshape
    simp only [Target.transferType, hview, Except.ok.injEq] at htype
    simp only [hfind, Option.map_some, Option.getD_some, ← htype]
    rw [hshape]
    refine (hnested f hf inner ?_).fresh
    rw [hshape]
    exact List.mem_singleton.mpr rfl
  · exact .other _ _ fun inner h => hstruct ⟨inner, h⟩

/-- The methods of a compiled struct convert it, if calls may nest as deeply as structs do. -/
theorem converts (wireCodec : Bool) (depth : Nat) (s : StructType) (hdepth : s.nesting ≤ depth)
    (compiled : Compiled m t wireCodec s) : Converts m t (m.library depth) s := by
  induction depth generalizing s with
  | zero =>
    rw [nesting_eq] at hdepth
    omega
  | succ depth ih =>
    have hnested : ∀ f ∈ s.fields, ∀ inner ∈ f.type.shape.structs,
        Converts m t (m.library depth) inner := by
      intro f hf inner hinner
      have hlt := nesting_lt s inner f hf hinner
      exact ih inner (by omega) (compiled.field f hf hinner)
    obtain ⟨c, transfers, declares⟩ := compiled.hosts.declares
    refine ⟨compiled.fresh hnested, ?_, ?_⟩
    · intro st
      simp [Machine.construct?, Target.transferTypeOf, declares.transfer]
    · intro strict v w st typed storage hself hwrapper
      cases typed with
      | struct _ fields hfields _ =>
      cases storage with
      | other _ _ hshape => exact absurd rfl (hshape s)
      | struct _ ws hws =>
      have hready : ∀ f ∈ Target.views s,
          f.shape.Transferable t.layout ∧ ShapeConverts m t (m.library depth) f.shape :=
        forall_mem_views fun f hf =>
          ⟨declares.transferable f hf, compiled.shapeConverts hnested f hf⟩
      obtain ⟨natives, st', hexec, hself', hwrapper', hmarshals, hreps, _⟩ :=
        exec_fieldsToNative strict (Target.views s) hready
          (by rw [views_names]; exact compiled.hosts.distinct) _ _ fields ws st
          (forall_mem_views hfields) (forall_mem_views hws) hself hwrapper
      refine ⟨_, st', library_call declares depth .toNative st st' ?_, hself'.trans hself, hwrapper',
        hmarshals, .struct s fields natives ?_⟩
      · rw [ValueClass.body, declares.bodies.toNative]
        exact hexec
      · intro f hf
        exact hreps _ (List.mem_map_of_mem hf)

end

end InteropGen

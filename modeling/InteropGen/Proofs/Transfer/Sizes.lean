import InteropGen.Proofs.Machine.Completed
import InteropGen.Proofs.Transfer.Structs

/-!
# Room for native copies

Sizes of buffers are computed in 32 bits, and nothing checks them. A conversion that comes to its end
has had room for every cell that it stored, so that the sizes were right. All premises but the
well-formedness of the value are derived from the run.

* `WellFormed` — the values that a round trip is about, whatever their size;
* `Sized` — the values whose buffers have sizes that fit; `typed_iff` takes the two together;
* `FindsRoom` — a `ToNative` that comes to its end only for values of the second kind, and
  `findsRoom` — every generated one does.
-/

set_option autoImplicit false

namespace InteropGen

open CSharp

/-- The well-formed values of a shape: no null string, sequence or object, no sequence above its
bound, no long double, narrow characters of one byte, counts of 32 bits, arrays of their declared
shape. -/
inductive WellFormed (layout : Layout) : Shape → Value → Prop
  | primitive (kind : PrimitiveKind) (v : Value) (holds : kind.valueType.Holds v)
      (keeps : kind.Keeps v) : WellFormed layout (.primitive kind) v
  | text (kind : StringKind) (units : List (BitVec 16)) :
      WellFormed layout (.string kind) (.text units)
  | enum (e : EnumType) (n : Int) (hn : InInt32 n) :
      WellFormed layout (.enum e) (.member e.name.dotted n)
  | struct (s : StructType) (fields : String → Value)
      (hfields : ∀ f ∈ s.fields, WellFormed layout f.type.shape (fields f.name))
      (hothers : ∀ name, name ∉ s.fields.map (·.name) → fields name = .null) :
      WellFormed layout (.struct s) (.record s.name.dotted fields)
  | array (e : Element) (dims : List Nat) (f : List Nat → Value) (valid : ValidDims dims)
      (helements : ∀ idx, InBounds dims idx → WellFormed layout e.shape (f idx)) :
      WellFormed layout (.array e.shape dims) (layout.arrayValue dims f)
  | list (e : Element) (maxBound : Nat) (items : List Value)
      (hitems : ∀ v ∈ items, WellFormed layout e.shape v)
      (hbound : maxBound = 0 ∨ items.length ≤ maxBound) (hcount : items.length ≤ 2147483647) :
      WellFormed layout (.sequence e.shape maxBound) (.list items)

/-- The bytes of every buffer that a conversion of the value allocates for an array or for a sequence
are a number of type `int`. -/
inductive Sized (m : Machine) (t : Target) : Shape → Value → Prop
  | primitive (kind : PrimitiveKind) (v : Value) : Sized m t (.primitive kind) v
  | string (kind : StringKind) (v : Value) : Sized m t (.string kind) v
  | enum (e : EnumType) (v : Value) : Sized m t (.enum e) v
  | struct (s : StructType) (path : String) (fields : String → Value)
      (hfields : ∀ f ∈ s.fields, Sized m t f.type.shape (fields f.name)) :
      Sized m t (.struct s) (.record path fields)
  | array (e : Element) (dims : List Nat) (f : List Nat → Value)
      (hfits : ∀ length, e.transfer dims = .outOfLine length →
        (t.slot e).width m * length ≤ 2147483647)
      (helements : ∀ idx, InBounds dims idx → Sized m t e.shape (f idx)) :
      Sized m t (.array e.shape dims) (t.layout.arrayValue dims f)
  | list (e : Element) (maxBound : Nat) (items : List Value)
      (hitems : ∀ v ∈ items, Sized m t e.shape v)
      (hfits : 4 + cutTo maxBound items.length * (t.slot e).width m ≤ 2147483647) :
      Sized m t (.sequence e.shape maxBound) (.list items)

section
variable {m : Machine} {t : Target}

theorem WellFormed.array_cases {layout : Layout} {e : Element} {dims : List Nat} {v : Value}
    (h : WellFormed layout (.array e.shape dims) v) :
    ∃ f, v = layout.arrayValue dims f ∧ ValidDims dims ∧
      ∀ idx, InBounds dims idx → WellFormed layout e.shape (f idx) := by
  generalize hshape : Shape.array e.shape dims = shape at h
  cases h with
  | array e' dims' f valid helements =>
    injection hshape with helement hdims
    cases Element.shape_injective helement
    subst hdims
    exact ⟨f, rfl, valid, helements⟩
  | _ => cases hshape

theorem WellFormed.sequence_cases {layout : Layout} {e : Element} {maxBound : Nat} {v : Value}
    (h : WellFormed layout (.sequence e.shape maxBound) v) :
    ∃ items, v = .list items ∧ (maxBound = 0 ∨ items.length ≤ maxBound) ∧
      items.length ≤ 2147483647 ∧ ∀ item ∈ items, WellFormed layout e.shape item := by
  generalize hshape : Shape.sequence e.shape maxBound = shape at h
  cases h with
  | list e' maxBound' items hitems hbound hcount =>
    injection hshape with helement hbounds
    cases Element.shape_injective helement
    subst hbounds
    exact ⟨items, rfl, hbound, hcount, hitems⟩
  | _ => cases hshape

theorem Sized.array_cases {e : Element} {dims : List Nat} {f : List Nat → Value}
    (h : Sized m t (.array e.shape dims) (t.layout.arrayValue dims f)) :
    (∀ length, e.transfer dims = .outOfLine length → (t.slot e).width m * length ≤ 2147483647) ∧
      ∀ idx, InBounds dims idx → Sized m t e.shape (f idx) := by
  generalize hshape : Shape.array e.shape dims = shape at h
  generalize hvalue : t.layout.arrayValue dims f = v at h
  cases h with
  | array e' dims' g hfits helements =>
    injection hshape with helement hdims
    cases Element.shape_injective helement
    subst hdims
    refine ⟨hfits, fun idx hidx => ?_⟩
    rw [Layout.arrayValue_injective hvalue idx hidx]
    exact helements idx hidx
  | _ => cases hshape

theorem Sized.sequence_cases {e : Element} {maxBound : Nat} {items : List Value}
    (h : Sized m t (.sequence e.shape maxBound) (.list items)) :
    4 + cutTo maxBound items.length * (t.slot e).width m ≤ 2147483647 ∧
      ∀ item ∈ items, Sized m t e.shape item := by
  generalize hshape : Shape.sequence e.shape maxBound = shape at h
  generalize hvalue : Value.list items = v at h
  cases h with
  | list e' maxBound' items' hitems hfits =>
    injection hshape with helement hbounds
    cases Element.shape_injective helement
    subst hbounds
    cases hvalue
    exact ⟨hfits, hitems⟩
  | _ => cases hshape

/-- The values that a conversion keeps are those that are well formed and have sizes that fit. -/
theorem typed_iff {shape : Shape} {v : Value} :
    Typed m t true shape v ↔ WellFormed t.layout shape v ∧ Sized m t shape v := by
  constructor
  · intro h
    induction h with
    | primitive kind v holds keeps => exact ⟨.primitive kind v holds (keeps rfl), .primitive kind v⟩
    | text kind units => exact ⟨.text kind units, .string kind _⟩
    | nullText kind hstrict => cases hstrict
    | enum e n hn => exact ⟨.enum e n hn, .enum e _⟩
    | struct s fields _ hothers ih =>
      exact ⟨.struct s fields (fun f hf => (ih f hf).1) hothers,
        .struct s _ fields fun f hf => (ih f hf).2⟩
    | array e dims f valid hfits _ ih =>
      exact ⟨.array e dims f valid fun idx hidx => (ih idx hidx).1,
        .array e dims f hfits fun idx hidx => (ih idx hidx).2⟩
    | list e maxBound items _ hbound hcount hfits ih =>
      exact ⟨.list e maxBound items (fun v hv => (ih v hv).1) (hbound rfl) hcount,
        .list e maxBound items (fun v hv => (ih v hv).2) hfits⟩
    | nullList e maxBound hstrict => cases hstrict
  · rintro ⟨wellFormed, sized⟩
    induction wellFormed with
    | primitive kind v holds keeps => exact .primitive kind v holds fun _ => keeps
    | text kind units => exact .text kind units
    | enum e n hn => exact .enum e n hn
    | struct s fields _ hothers ih =>
      cases sized with
      | struct _ _ _ hfields =>
        exact .struct s fields (fun f hf => ih f hf (hfields f hf)) hothers
    | array e dims f valid _ ih =>
      obtain ⟨hfits, helements⟩ := sized.array_cases
      exact .array e dims f valid hfits fun idx hidx => ih idx hidx (helements idx hidx)
    | list e maxBound items _ hbound hcount ih =>
      obtain ⟨hfits, hitems⟩ := sized.sequence_cases
      exact .list e maxBound items (fun v hv => ih v hv (hitems v hv)) (fun _ => hbound) hcount hfits

end

section
variable {m : Machine} {t : Target} {lib : Library}

/-- The `ToNative` of a struct that comes to its end has found room for everything in the value. -/
def FindsRoom (m : Machine) (t : Target) (lib : Library) (s : StructType) : Prop :=
  ∀ v w st callee, WellFormed t.layout (.struct s) v → Storage t (.struct s) w →
    st.self = v → st.wrapper = w → lib.call s.name.dotted .toNative st = some callee →
    Sized m t (.struct s) v

theorem FindsRoom.convertStruct {s : StructType} (room : FindsRoom m t lib s) {value transfer : Expr}
    {v w : Value} {env : Env} {st : State} {result : Env × State}
    (wellFormed : WellFormed t.layout (.struct s) v) (storage : Storage t (.struct s) w)
    (hvalue : value.eval m lib env st = some (v, st))
    (htransfer : transfer.eval m lib env st = some (w, st))
    (h : (Target.convertStruct value transfer).exec m lib env st = some result) :
    Sized m t (.struct s) v := by
  cases wellFormed with
  | struct _ fields hfields hothers =>
    obtain ⟨callee, hcall⟩ := exec_run_toNative_some m lib hvalue htransfer h
    exact room _ w _ callee (.struct s fields hfields hothers) storage rfl rfl hcall

/-- An element that was converted into its place is of a size that fits. -/
theorem sized_of_elementToNative (e : Element) (room : ∀ s, e = .struct s → FindsRoom m t lib s)
    {value place : Expr} {v w : Value} {env : Env} {st : State} {result : Env × State}
    (wellFormed : WellFormed t.layout e.shape v) (storage : Storage t e.shape w)
    (hvalue : value.eval m lib env st = some (v, st))
    (hplace : place.eval m lib env st = some (w, st))
    (h : execAll m lib (t.elementToNative e value place) env st = some result) :
    Sized m t e.shape v := by
  cases e with
  | primitive kind => exact .primitive kind v
  | string kind => exact .string kind v
  | enum e => exact .enum e v
  | struct s =>
    obtain ⟨_, _, hconvert, _⟩ := execAll_cons_some m lib h
    exact (room s rfl).convertStruct wellFormed storage hvalue hplace hconvert

/-- So is one that was staged on its way to a slot. -/
theorem sized_of_stageToNative (e : Element) (converts : ElementConverts m t lib e)
    (room : ∀ s, e = .struct s → FindsRoom m t lib s) {value : Expr} {around : Value → Value}
    {v : Value} {env : Env} {st : State} {result : Env × State}
    (wellFormed : WellFormed t.layout e.shape v)
    (hvalue : ∀ pre, Staging pre → PlaceAt m lib (pre ++ env) value .value around)
    (hself : st.self = around v)
    (h : execAll m lib (t.stageToNative e value).1 env st = some result) : Sized m t e.shape v := by
  cases e with
  | primitive kind => exact .primitive kind v
  | string kind => exact .string kind v
  | enum e => exact .enum e v
  | struct s =>
    obtain ⟨_, _, hdeclare, hrest⟩ := execAll_cons_some m lib h
    rw [(converts.struct s rfl).exec_declare] at hdeclare
    cases hdeclare
    obtain ⟨_, _, hconvert, _⟩ := execAll_cons_some m lib hrest
    exact (room s rfl).convertStruct wellFormed (converts.struct s rfl).fresh
      ((hvalue _ (.element _)).eval st v hself) (bound_local m lib (by simp) rfl st) hconvert

/-- What is known of an element that came into its slot: its size and that of the block fit. -/
theorem Filled.storeInSlot_of_exec {e : Element} {st₀ st : State} {b base k : Nat} {size : Int}
    {lead : Int → Option Cell} {items : List Value} (converts : ElementConverts m t lib e)
    (room : ∀ s, e = .struct s → FindsRoom m t lib s) (width : Nat)
    (hwidth : width = (t.slot e).width m) {item : Value}
    (filled : Filled m t e st₀ b size base lead items k st)
    (hlead : ∀ o c, lead o = some c → o < base ∧ o + c.width ≤ base)
    (hitem : items[k]? = some item) (wellFormed : WellFormed t.layout e.shape item) {env : Env}
    {value buffer offset : Expr} {around : Value → Value}
    (hvalue : ∀ pre, Staging pre → PlaceAt m lib (pre ++ env) value .value around)
    (hself : st.self = around item)
    (hbuffer : ∀ env' st', st'.wrapper = st.wrapper →
      buffer.eval m lib env' st' = some (.handle (some ⟨b, 0⟩), st'))
    (hoffset : ∀ pre, Staging pre →
      Bound m lib (pre ++ env) offset (.int (base + k * width : Nat)))
    {last : Env} {st' : State}
    (h : execAll m lib (t.storeInSlot e buffer offset value) env st = some (last, st')) :
    Sized m t e.shape item ∧ (base + k * width : Nat) + width ≤ size ∧
      (∃ pre, last = pre ++ env) ∧ st'.wrapper = st.wrapper ∧
      Filled m t e st₀ b size base lead items (k + 1) st' := by
  subst hwidth
  obtain ⟨_, st₁, hstaging, hwrite⟩ := execAll_append_some m lib (show execAll m lib
    ((t.stageToNative e value).1 ++ [.run ((t.slot e).write buffer offset (t.stageToNative e value).2)])
    env st = some (last, st') from h)
  have sized := sized_of_stageToNative e converts room wellFormed hvalue hself hstaging
  have typed : Typed m t true e.shape item := typed_iff.mpr ⟨wellFormed, sized⟩
  have hroom : (base + k * (t.slot e).width m : Nat) + (t.slot e).width m ≤ size := by
    obtain ⟨pre, native, _, hpre, hstage, hstaged, _, hwrapper₁, hmarshals, hrep⟩ :=
      exec_stageToNative true e converts env value around hvalue item st typed hself
    cases hstaging.symm.trans hstage
    obtain ⟨cells, _, hblock, _⟩ := filled.cells
    have hblock₁ := (hmarshals.memory.same b (Nat.zero_le b) filled.next).trans hblock
    obtain ⟨_, _, hstore, _⟩ := execAll_cons_some m lib hwrite
    rw [exec_slotWrite m lib _ _ (slot_accepts typed hrep) buffer offset _ b _ _ st₁
      (hbuffer _ st₁ hwrapper₁) (hoffset pre hpre st₁) hstaged] at hstore
    obtain ⟨_, hstored, _⟩ := Option.map_eq_some_iff.mp hstore
    simpa using (Memory.room_of_store? hblock₁ hstored).2
  obtain ⟨pre, _, hexec, hkept, hfilled⟩ := filled.exec_storeInSlot converts _ rfl hlead hitem typed
    hvalue hself hbuffer hoffset hroom
  cases h.symm.trans hexec
  exact ⟨sized, hroom, ⟨pre, rfl⟩, hkept, hfilled⟩

end

end InteropGen

import InteropGen.Proofs.Graph.Names
import InteropGen.Proofs.Graph.Values
import InteropGen.TypeGraph.Json

/-!
# Type graphs through JSON

Reading is lenient and writing is not: a record may be read from an object or from an array, parts
may be left out or unknown, and a name may hold empty pieces, but a graph is written in one way.
What was read is written so that it is read again, as the same graph.

* `Declaration.Portable` — graphs that JSON can carry: names whose segments can be told apart, and
  numbers of the width that the reader allows;
* `Declaration.portable_of_decode?` — everything that is read is such a graph;
* `Declaration.decode?_encode` — every such graph is read again from what it is written as;
* `Declaration.readable_iff` — so these are the graphs that are read from the values of texts;
* `graph_round_trip` — what was read is written so that it is read again.
-/

set_option autoImplicit false

namespace InteropGen

/-! ## Graphs that JSON can carry -/

/-- The type holds names and numbers that its written form tells. -/
inductive TypeNode.Portable : TypeNode → Prop
  | primitive (kind : PrimitiveKind) : Portable (.primitive kind)
  | narrowString : Portable .narrowString
  | wideString : Portable .wideString
  | enum (e : EnumType) (hname : e.name.Separable) : Portable (.enum e)
  | struct (s : StructType) (hname : s.name.Separable) (hfields : ∀ f ∈ s.fields, Portable f.type) :
      Portable (.struct s)
  | union (u : UnionType) (hname : u.name.Separable)
      (hbranches : ∀ f ∈ u.branches, Portable f.type) : Portable (.union u)
  | alias (a : AliasType) (hname : a.name.Separable) (htarget : Portable a.target) :
      Portable (.alias a)
  | fixedArray (element : TypeNode) (dims : List Nat) (helement : Portable element)
      (hdims : ∀ d ∈ dims, d < 2 ^ 32) : Portable (.fixedArray element dims)
  | sequence (element : TypeNode) (bound : Nat) (helement : Portable element)
      (hbound : bound < 2 ^ 32) : Portable (.sequence element bound)

/-- The value is a number of its width, or no number. -/
def ConstValue.Portable : ConstValue → Prop
  | int v => -2 ^ 63 ≤ v ∧ v ≤ 2 ^ 63 - 1
  | uint v => v < 2 ^ 64
  | float v => v.isFinite
  | _ => True

/-- The declaration holds names and numbers that its written form tells. -/
def Declaration.Portable : Declaration → Prop
  | struct s => (TypeNode.struct s).Portable
  | enum e => (TypeNode.enum e).Portable
  | .alias a => (TypeNode.alias a).Portable
  | union u => (TypeNode.union u).Portable
  | const c => c.name.Separable ∧ c.type.Portable ∧ c.value.Portable

/-! ## Records -/

theorem ScopedName.decode?_encode {n : ScopedName} (h : n.Separable) :
    decode? n.encode = some n := by
  simp [decode?, encode, Json.string?, parse_qualified h]

theorem ScopedName.separable_of_decode? {j : Json} {n : ScopedName} (h : decode? j = some n) :
    n.Separable := by
  obtain ⟨text, _, rfl⟩ := Option.map_eq_some_iff.mp h
  exact separable_parse text

theorem PrimitiveKind.decode?_encode (kind : PrimitiveKind) : decode? kind.encode = some kind := by
  cases kind <;> rfl

theorem EnumType.decode?_encode {e : EnumType} (h : e.name.Separable) :
    decode? e.encode = some e := by
  have hvalues : (Json.array (e.values.map .string)).list? Json.string? = some e.values :=
    Json.list?_array _ _ _ fun _ _ => rfl
  simp [decode?, encode, Json.record?, Json.unique?, Json.membersOf, ScopedName.decode?_encode h,
    hvalues]

theorem EnumType.separable_of_decode? {j : Json} {e : EnumType} (h : decode? j = some e) :
    e.name.Separable := by
  unfold decode? at h
  split at h
  · simp only [Option.bind_eq_bind, Option.bind_eq_some_iff] at h
    obtain ⟨name, hname, values, _, hresult⟩ := h
    cases hresult
    exact ScopedName.separable_of_decode? hname
  · cases h

section
variable {α : Type} {type : Json → Option α}

/-- The type of a field was read by the function for types. -/
theorem FieldOf.type_of_decode? {j : Json} {f : FieldOf α} (h : FieldOf.decode? type j = some f) :
    ∃ t, type t = some f.type := by
  unfold FieldOf.decode? at h
  split at h
  · simp only [Option.bind_eq_bind, Option.bind_eq_some_iff] at h
    obtain ⟨name, _, t, ht, hresult⟩ := h
    cases hresult
    exact ⟨_, ht⟩
  · cases h

theorem FieldOf.type_of_decodeList? {j : Option Json} {fields : List (FieldOf α)}
    (h : FieldOf.decodeList? type j = some fields) : ∀ f ∈ fields, ∃ t, type t = some f.type := by
  cases j with
  | none =>
    cases h
    simp
  | some j =>
    intro f hf
    obtain ⟨item, hitem⟩ := Json.mem_of_list? h f hf
    exact FieldOf.type_of_decode? hitem

theorem StructOf.parts_of_decode? {j : Json} {s : StructOf α}
    (h : StructOf.decode? type j = some s) :
    s.name.Separable ∧ ∀ f ∈ s.fields, ∃ t, type t = some f.type := by
  unfold StructOf.decode? at h
  split at h
  · simp only [Option.bind_eq_bind, Option.bind_eq_some_iff] at h
    obtain ⟨name, hname, fields, hfields, category, _, hresult⟩ := h
    cases hresult
    exact ⟨ScopedName.separable_of_decode? hname, FieldOf.type_of_decodeList? hfields⟩
  · cases h

theorem UnionOf.parts_of_decode? {j : Json} {u : UnionOf α} (h : UnionOf.decode? type j = some u) :
    u.name.Separable ∧ ∀ f ∈ u.branches, ∃ t, type t = some f.type := by
  unfold UnionOf.decode? at h
  split at h
  · simp only [Option.bind_eq_bind, Option.bind_eq_some_iff] at h
    obtain ⟨name, hname, branches, hbranches, hresult⟩ := h
    cases hresult
    exact ⟨ScopedName.separable_of_decode? hname, FieldOf.type_of_decodeList? hbranches⟩
  · cases h

theorem AliasOf.parts_of_decode? {j : Json} {a : AliasOf α} (h : AliasOf.decode? type j = some a) :
    a.name.Separable ∧ ∃ t, type t = some a.target := by
  unfold AliasOf.decode? at h
  split at h
  · simp only [Option.bind_eq_bind, Option.bind_eq_some_iff] at h
    obtain ⟨name, hname, target, htarget, hresult⟩ := h
    cases hresult
    exact ⟨ScopedName.separable_of_decode? hname, _, htarget⟩
  · cases h

theorem parts_of_decodeArray? {j : Json} {element : α} {dims : List Nat}
    (h : decodeArray? type j = some (element, dims)) :
    (∃ t, type t = some element) ∧ ∀ d ∈ dims, d < 2 ^ 32 := by
  unfold decodeArray? at h
  split at h
  · simp only [Option.bind_eq_bind, Option.bind_eq_some_iff] at h
    obtain ⟨a, ha, numbers, hnumbers, hresult⟩ := h
    cases hresult
    refine ⟨⟨_, ha⟩, fun d hd => ?_⟩
    obtain ⟨item, hitem⟩ := Json.mem_of_list? hnumbers d hd
    exact Json.lt_of_natural? hitem
  · cases h

theorem parts_of_decodeSequence? {j : Json} {element : α} {bound : Nat}
    (h : decodeSequence? type j = some (element, bound)) :
    (∃ t, type t = some element) ∧ bound < 2 ^ 32 := by
  unfold decodeSequence? at h
  split at h
  · simp only [Option.bind_eq_bind, Option.bind_eq_some_iff] at h
    obtain ⟨a, ha, number, hnumber, hresult⟩ := h
    cases hresult
    refine ⟨⟨_, ha⟩, ?_⟩
    rename_i written _
    cases written with
    | none =>
      cases hnumber
      decide
    | some item => exact Json.lt_of_natural? hnumber
  · cases h

end

namespace TypeNode

/-! ## What is read -/

/-- Whatever is read as a type can be carried by JSON. -/
theorem portable_of_decodeWith? {fuel : Nat} {j : Json} {node : TypeNode}
    (h : decodeWith? fuel j = some node) : node.Portable := by
  induction fuel generalizing j node with
  | zero => cases h
  | succ fuel ih =>
    have hfields : ∀ fields : List Field, (∀ f ∈ fields, ∃ t, decodeWith? fuel t = some f.type) →
        ∀ f ∈ fields, f.type.Portable := by
      intro fields hread f hf
      obtain ⟨t, ht⟩ := hread f hf
      exact ih ht
    unfold decodeWith? at h
    split at h
    · cases h
      exact .narrowString
    · cases h
      exact .narrowString
    · cases h
      exact .wideString
    · cases h
      exact .wideString
    · obtain ⟨kind, _, rfl⟩ := Option.map_eq_some_iff.mp h
      exact .primitive kind
    · obtain ⟨e, he, rfl⟩ := Option.map_eq_some_iff.mp h
      exact .enum e (EnumType.separable_of_decode? he)
    · obtain ⟨s, hs, rfl⟩ := Option.map_eq_some_iff.mp h
      obtain ⟨hname, hread⟩ := StructOf.parts_of_decode? hs
      exact .struct s hname (hfields s.fields hread)
    · obtain ⟨u, hu, rfl⟩ := Option.map_eq_some_iff.mp h
      obtain ⟨hname, hread⟩ := UnionOf.parts_of_decode? hu
      exact .union u hname (hfields u.branches hread)
    · obtain ⟨a, ha, rfl⟩ := Option.map_eq_some_iff.mp h
      obtain ⟨hname, t, ht⟩ := AliasOf.parts_of_decode? ha
      exact .alias a hname (ih ht)
    · obtain ⟨⟨element, dims⟩, harray, rfl⟩ := Option.map_eq_some_iff.mp h
      obtain ⟨⟨t, ht⟩, hdims⟩ := parts_of_decodeArray? harray
      exact .fixedArray element dims (ih ht) hdims
    · obtain ⟨⟨element, bound⟩, hsequence, rfl⟩ := Option.map_eq_some_iff.mp h
      obtain ⟨⟨t, ht⟩, hbound⟩ := parts_of_decodeSequence? hsequence
      exact .sequence element bound (ih ht) hbound
    · cases h

/-! ## What is read again -/

theorem encodeFields_eq_map (fields : List Field) :
    encodeFields fields = fields.map encodeField := by
  induction fields with
  | nil => rfl
  | cons f rest ih => rw [encodeFields, ih, List.map_cons]

section
variable {type : Json → Option TypeNode}

theorem decodeField_encode {f : Field} (h : type f.type.encode = some f.type) :
    FieldOf.decode? type (encodeField f) = some f := by
  obtain ⟨name, t⟩ := f
  simp [FieldOf.decode?, encodeField, Json.record?, Json.unique?, Json.membersOf, Json.string?, h]

theorem decodeFields_encode {fields : List Field}
    (h : ∀ f ∈ fields, type f.type.encode = some f.type) :
    FieldOf.decodeList? type (some (.array (encodeFields fields))) = some fields := by
  rw [encodeFields_eq_map]
  exact Json.list?_array _ _ _ fun f hf => decodeField_encode (h f hf)

/-- A struct is read from its object, whether it names a category or not. -/
theorem decodeStruct_encode {s : StructType} (hname : s.name.Separable)
    (hfields : ∀ f ∈ s.fields, type f.type.encode = some f.type) :
    StructOf.decode? type (encodeStruct s) = some s := by
  have hread := decodeFields_encode hfields
  obtain ⟨name, fields, category⟩ := s
  cases category <;>
    simp [StructOf.decode?, encodeStruct, Json.record?, Json.unique?, Json.membersOf,
      ScopedName.decode?_encode hname, hread, decodeCategory?]

theorem decodeUnion_encode {u : UnionType} (hname : u.name.Separable)
    (hbranches : ∀ f ∈ u.branches, type f.type.encode = some f.type) :
    UnionOf.decode? type (encodeUnion u) = some u := by
  have hread := decodeFields_encode hbranches
  obtain ⟨name, branches⟩ := u
  simp [UnionOf.decode?, encodeUnion, Json.record?, Json.unique?, Json.membersOf,
    ScopedName.decode?_encode hname, hread]

theorem decodeAlias_encode {a : AliasType} (hname : a.name.Separable)
    (htarget : type a.target.encode = some a.target) :
    AliasOf.decode? type (encodeAlias a) = some a := by
  obtain ⟨name, target⟩ := a
  simp [AliasOf.decode?, encodeAlias, Json.record?, Json.unique?, Json.membersOf,
    ScopedName.decode?_encode hname, htarget]

theorem decodeArray_encode {element : TypeNode} {dims : List Nat}
    (helement : type element.encode = some element) (hdims : ∀ d ∈ dims, d < 2 ^ 32) :
    decodeArray? type
      (.object [("element", element.encode), ("dims", .array (dims.map Json.ofNat))]) =
        some (element, dims) := by
  have hread : (Json.array (dims.map Json.ofNat)).list? (Json.natural? 32) = some dims :=
    Json.list?_array _ _ _ fun d hd => Json.natural?_ofNat (hdims d hd)
  simp [decodeArray?, Json.record?, Json.unique?, Json.membersOf, helement, hread]

theorem decodeSequence_encode {element : TypeNode} {bound : Nat}
    (helement : type element.encode = some element) (hbound : bound < 2 ^ 32) :
    decodeSequence? type (.object [("element", element.encode), ("max_bound", .ofNat bound)]) =
      some (element, bound) := by
  simp [decodeSequence?, Json.record?, Json.unique?, Json.membersOf, helement,
    Json.natural?_ofNat hbound]

end

/-- The type of a field is nested in the list that the field is written in. -/
theorem depth_field_lt {f : Field} {fields : List Field} (h : f ∈ fields) :
    f.type.encode.depth < (Json.array (encodeFields fields)).depth := by
  have hfield : f.type.encode.depth < (encodeField f).depth := by
    obtain ⟨name, t⟩ := f
    exact Json.depth_lt_of_mem_object "type" (by simp)
  have hitem : encodeField f ∈ encodeFields fields :=
    (encodeFields_eq_map fields).symm ▸ List.mem_map_of_mem h
  exact Nat.lt_trans hfield (Json.depth_lt_of_mem_array hitem)

theorem depth_structField_lt {s : StructType} {f : Field} (h : f ∈ s.fields) :
    f.type.encode.depth < (encodeStruct s).depth := by
  refine Nat.lt_trans (depth_field_lt h) ?_
  obtain ⟨name, fields, category⟩ := s
  exact Json.depth_lt_of_mem_object "fields" (by simp)

theorem depth_branch_lt {u : UnionType} {f : Field} (h : f ∈ u.branches) :
    f.type.encode.depth < (encodeUnion u).depth := by
  refine Nat.lt_trans (depth_field_lt h) ?_
  obtain ⟨name, branches⟩ := u
  exact Json.depth_lt_of_mem_object "branches" (by simp)

theorem depth_target_lt (a : AliasType) : a.target.encode.depth < (encodeAlias a).depth := by
  obtain ⟨name, target⟩ := a
  exact Json.depth_lt_of_mem_object "target" (by simp)

/-- A type is read from what it is written as, with fuel for every type in it. -/
theorem decodeWith?_encode {node : TypeNode} (h : node.Portable) {fuel : Nat}
    (hfuel : node.encode.depth < fuel) : decodeWith? fuel node.encode = some node := by
  induction h generalizing fuel <;>
    obtain ⟨fuel, rfl⟩ := Nat.exists_eq_succ_of_ne_zero (Nat.ne_zero_of_lt hfuel)
  case primitive kind => exact congrArg (Option.map primitive) kind.decode?_encode
  case narrowString => rfl
  case wideString => rfl
  case enum e hname => exact congrArg (Option.map enum) (EnumType.decode?_encode hname)
  case struct s hname hfields ih =>
    have hread : ∀ f ∈ s.fields, decodeWith? fuel f.type.encode = some f.type := fun f hf =>
      ih f hf (Nat.lt_trans (depth_structField_lt hf) (Json.depth_content_lt hfuel))
    exact congrArg (Option.map struct) (decodeStruct_encode hname hread)
  case union u hname hbranches ih =>
    have hread : ∀ f ∈ u.branches, decodeWith? fuel f.type.encode = some f.type := fun f hf =>
      ih f hf (Nat.lt_trans (depth_branch_lt hf) (Json.depth_content_lt hfuel))
    exact congrArg (Option.map union) (decodeUnion_encode hname hread)
  case «alias» a hname htarget ih =>
    have hread := ih (Nat.lt_trans (depth_target_lt a) (Json.depth_content_lt hfuel))
    exact congrArg (Option.map TypeNode.alias) (decodeAlias_encode hname hread)
  case fixedArray element dims helement hdims ih =>
    have hread := ih (Nat.lt_trans (Json.depth_lt_of_mem_object "element" (List.mem_cons_self ..))
      (Json.depth_content_lt hfuel))
    exact congrArg (Option.map fun part => fixedArray part.1 part.2)
      (decodeArray_encode hread hdims)
  case sequence element bound helement hbound ih =>
    have hread := ih (Nat.lt_trans (Json.depth_lt_of_mem_object "element" (List.mem_cons_self ..))
      (Json.depth_content_lt hfuel))
    exact congrArg (Option.map fun part => sequence part.1 part.2)
      (decodeSequence_encode hread hbound)

theorem decode?_encode {node : TypeNode} (h : node.Portable) : decode? node.encode = some node :=
  decodeWith?_encode h (Nat.lt_succ_self _)

theorem portable_of_decode? {j : Json} {node : TypeNode} (h : decode? j = some node) :
    node.Portable :=
  portable_of_decodeWith? h

end TypeNode

/-! ## Constants -/

namespace ConstValue

theorem decode?_encode {v : ConstValue} (h : v.Portable) : decode? v.encode = some v := by
  cases v with
  | int i => exact congrArg (Option.map int) (Json.integer?_ofInt h)
  | uint n => exact congrArg (Option.map uint) (Json.natural?_ofNat h)
  | float x => exact congrArg (Option.map float) (if_pos h)
  | char c => simp [decode?, encode, Json.tagged, Json.variant?, Json.string?, singleChar?]
  | _ => rfl

/-- A number that was read from a text is one of its width. -/
theorem portable_of_decode? {j : Json} {v : ConstValue} (hj : j.Sized) (h : decode? j = some v) :
    v.Portable := by
  unfold decode? at h
  split at h
  · obtain ⟨i, hi, rfl⟩ := Option.map_eq_some_iff.mp h
    exact Json.mem_of_integer? hi
  · obtain ⟨n, hn, rfl⟩ := Option.map_eq_some_iff.mp h
    exact Json.lt_of_natural? hn
  · rename_i content hcontent
    obtain ⟨x, hx, rfl⟩ := Option.map_eq_some_iff.mp h
    exact (hj.content hcontent).isFinite hx
  · obtain ⟨b, _, rfl⟩ := Option.map_eq_some_iff.mp h
    trivial
  · obtain ⟨c, _, rfl⟩ := Option.map_eq_some_iff.mp h
    trivial
  · obtain ⟨s, _, rfl⟩ := Option.map_eq_some_iff.mp h
    trivial
  · obtain ⟨member, _, rfl⟩ := Option.map_eq_some_iff.mp h
    trivial
  · cases h

end ConstValue

theorem ConstDecl.decode?_encode {c : ConstDecl} (h : (Declaration.const c).Portable) :
    decode? c.encode = some c := by
  obtain ⟨hname, htype, hvalue⟩ := h
  simp [decode?, encode, Json.record?, Json.unique?, Json.membersOf,
    ScopedName.decode?_encode hname, TypeNode.decode?_encode htype,
    ConstValue.decode?_encode hvalue]

theorem ConstDecl.portable_of_decode? {j : Json} {c : ConstDecl} (hj : j.Sized)
    (h : decode? j = some c) : (Declaration.const c).Portable := by
  unfold decode? at h
  split at h
  · rename_i name type value hparts
    simp only [Option.bind_eq_bind, Option.bind_eq_some_iff] at h
    obtain ⟨n, hname, t, htype, v, hvalue, hresult⟩ := h
    cases hresult
    have hsized : value.Sized := hj.part hparts (by simp)
    exact ⟨ScopedName.separable_of_decode? hname, TypeNode.portable_of_decode? htype,
      ConstValue.portable_of_decode? hsized hvalue⟩
  · cases h

/-! ## Declarations -/

namespace Declaration

/-- A declaration is read from what it is written as. -/
theorem decode?_encode {d : Declaration} (h : d.Portable) : decode? d.encode = some d := by
  have hnode : ∀ node : TypeNode, node.Portable → TypeNode.decode? node.encode = some node :=
    fun _ => TypeNode.decode?_encode
  cases d with
  | struct s =>
    cases h with
    | struct _ hname hfields =>
      exact congrArg (Option.map struct)
        (TypeNode.decodeStruct_encode hname fun f hf => hnode f.type (hfields f hf))
  | enum e =>
    cases h with
    | enum _ hname => exact congrArg (Option.map enum) (EnumType.decode?_encode hname)
  | «alias» a =>
    cases h with
    | «alias» _ hname htarget =>
      exact congrArg (Option.map Declaration.alias)
        (TypeNode.decodeAlias_encode hname (hnode _ htarget))
  | union u =>
    cases h with
    | union _ hname hbranches =>
      exact congrArg (Option.map union)
        (TypeNode.decodeUnion_encode hname fun f hf => hnode f.type (hbranches f hf))
  | const c => exact congrArg (Option.map const) (ConstDecl.decode?_encode h)

/-- Whatever is read as a declaration from a value of a text can be carried by JSON. -/
theorem portable_of_decode? {j : Json} {d : Declaration} (hj : j.Sized) (h : decode? j = some d) :
    d.Portable := by
  have hfields : ∀ fields : List Field, (∀ f ∈ fields, ∃ t, TypeNode.decode? t = some f.type) →
      ∀ f ∈ fields, f.type.Portable := by
    intro fields hread f hf
    obtain ⟨t, ht⟩ := hread f hf
    exact TypeNode.portable_of_decode? ht
  unfold decode? at h
  split at h
  · obtain ⟨s, hs, rfl⟩ := Option.map_eq_some_iff.mp h
    obtain ⟨hname, hread⟩ := StructOf.parts_of_decode? hs
    exact .struct s hname (hfields s.fields hread)
  · obtain ⟨e, he, rfl⟩ := Option.map_eq_some_iff.mp h
    exact .enum e (EnumType.separable_of_decode? he)
  · obtain ⟨a, ha, rfl⟩ := Option.map_eq_some_iff.mp h
    obtain ⟨hname, t, ht⟩ := AliasOf.parts_of_decode? ha
    exact .alias a hname (TypeNode.portable_of_decode? ht)
  · obtain ⟨u, hu, rfl⟩ := Option.map_eq_some_iff.mp h
    obtain ⟨hname, hread⟩ := UnionOf.parts_of_decode? hu
    exact .union u hname (hfields u.branches hread)
  · rename_i content hcontent
    obtain ⟨c, hc, rfl⟩ := Option.map_eq_some_iff.mp h
    exact ConstDecl.portable_of_decode? (hj.content hcontent) hc
  · cases h

theorem decodeList?_encodeList {graph : List Declaration} (h : ∀ d ∈ graph, d.Portable) :
    decodeList? (encodeList graph) = some graph :=
  Json.list?_array _ _ _ fun d hd => decode?_encode (h d hd)

theorem portable_of_decodeList? {j : Json} {graph : List Declaration} (hj : j.Sized)
    (h : decodeList? j = some graph) : ∀ d ∈ graph, d.Portable := by
  intro d hd
  obtain ⟨y, hy, hread⟩ := hj.of_list? h d hd
  exact portable_of_decode? hy hread

end Declaration

/-! ## What is written is a value of a text -/

namespace TypeNode

theorem sized_encodeFields {fields : List Field} (h : ∀ f ∈ fields, f.type.encode.Sized) :
    (Json.array (encodeFields fields)).Sized := by
  simp only [encodeFields_eq_map, Json.sized_array, List.forall_mem_map]
  intro f hf
  have htype := h f hf
  obtain ⟨name, t⟩ := f
  simpa [encodeField] using htype

theorem sized_encodeStruct {s : StructType} (h : ∀ f ∈ s.fields, f.type.encode.Sized) :
    (encodeStruct s).Sized := by
  have hfields := sized_encodeFields h
  obtain ⟨name, fields, category⟩ := s
  cases category <;> simpa [encodeStruct, ScopedName.encode] using hfields

theorem sized_encodeUnion {u : UnionType} (h : ∀ f ∈ u.branches, f.type.encode.Sized) :
    (encodeUnion u).Sized := by
  have hbranches := sized_encodeFields h
  obtain ⟨name, branches⟩ := u
  simpa [encodeUnion, ScopedName.encode] using hbranches

theorem sized_encodeAlias {a : AliasType} (h : a.target.encode.Sized) : (encodeAlias a).Sized := by
  obtain ⟨name, target⟩ := a
  simpa [encodeAlias, ScopedName.encode] using h

end TypeNode

theorem EnumType.sized_encode (e : EnumType) : e.encode.Sized := by
  simp [encode, ScopedName.encode]

theorem TypeNode.sized_encode {node : TypeNode} (h : node.Portable) : node.encode.Sized := by
  induction h
  case primitive kind => simp [encode, PrimitiveKind.encode]
  case narrowString => simp [encode]
  case wideString => simp [encode]
  case enum e hname => simp [encode, e.sized_encode]
  case struct s hname hfields ih => simp [encode, sized_encodeStruct ih]
  case union u hname hbranches ih => simp [encode, sized_encodeUnion ih]
  case «alias» a hname htarget ih => simp [encode, sized_encodeAlias ih]
  case fixedArray element dims helement hdims ih =>
    have hsized : ∀ d ∈ dims, (Json.ofNat d).Sized := fun d hd =>
      Json.sized_ofNat (Nat.lt_trans (hdims d hd) (by decide))
    simpa [encode, ih] using hsized
  case sequence element bound helement hbound ih =>
    simp [encode, ih, Json.sized_ofNat (Nat.lt_trans hbound (by decide))]

theorem ConstValue.sized_encode {v : ConstValue} (h : v.Portable) : v.encode.Sized := by
  cases v with
  | int i =>
    obtain ⟨hlow, hhigh⟩ := h
    simp [encode, Json.ofInt]
    omega
  | uint n => simp [encode, Json.sized_ofNat h]
  | _ => simp [encode]

theorem Declaration.sized_encode {d : Declaration} (h : d.Portable) : d.encode.Sized := by
  cases d with
  | struct s =>
    cases h with
    | struct _ _ hfields =>
      simp [encode, TypeNode.sized_encodeStruct fun f hf => TypeNode.sized_encode (hfields f hf)]
  | enum e => simp [encode, e.sized_encode]
  | «alias» a =>
    cases h with
    | «alias» _ _ htarget =>
      simp [encode, TypeNode.sized_encodeAlias (TypeNode.sized_encode htarget)]
  | union u =>
    cases h with
    | union _ _ hbranches =>
      simp [encode, TypeNode.sized_encodeUnion fun f hf => TypeNode.sized_encode (hbranches f hf)]
  | const c =>
    obtain ⟨_, htype, hvalue⟩ := h
    simp [encode, ConstDecl.encode, ScopedName.encode, TypeNode.sized_encode htype,
      ConstValue.sized_encode hvalue]

/-- The graphs that are read from the values of texts are those that JSON can carry. -/
theorem Declaration.readable_iff {graph : List Declaration} :
    (∃ j : Json, j.Sized ∧ decodeList? j = some graph) ↔ ∀ d ∈ graph, d.Portable := by
  constructor
  · rintro ⟨j, hj, hread⟩
    exact portable_of_decodeList? hj hread
  · intro h
    refine ⟨encodeList graph, ?_, decodeList?_encodeList h⟩
    simpa [encodeList] using fun d hd => sized_encode (h d hd)

/-! ## The round trip -/

/-- A graph that was read from the value of a text is read again from what it is written as, and is
written in one way only. -/
theorem graph_round_trip {j : Json} {graph : List Declaration} (hj : j.Sized)
    (h : Declaration.decodeList? j = some graph) :
    Declaration.decodeList? (Declaration.encodeList graph) = some graph ∧
      (Declaration.decodeList? (Declaration.encodeList graph)).map Declaration.encodeList =
        some (Declaration.encodeList graph) := by
  have hread := Declaration.decodeList?_encodeList (Declaration.portable_of_decodeList? hj h)
  exact ⟨hread, congrArg (Option.map Declaration.encodeList) hread⟩

namespace Mooring

/-- A graph as a person may write it: records without keys, a bound and a category left out, a
member of another name, units as objects, and names with empty pieces. -/
def json : Json :=
  .array [
    .tagged "struct" (.object [
      ("revision", .ofNat 3),
      ("name", .string "::Port::::Mooring"),
      ("fields", .array [
        .array [.string "berths", .tagged "sequence" (.array [.tagged "alias" (.array [
          .string "Port::Berth",
          .tagged "fixed_array" (.object [
            ("dims", .array [.ofNat 2, .ofNat 3]),
            ("element", .tagged "primitive" (.tagged "u16" .null))])])])],
        .object [("type", .string "wide_string"), ("name", .string "label")]])]),
    .tagged "union" (.array [.string "Port:::Signal"]),
    .tagged "const" (.array [
      .string "Port::LIMIT", .tagged "primitive" (.string "f64"), .tagged "float" (.ofNat 12)])]

def graph : List Declaration :=
  [.struct ⟨.ofSegments ["Port", "Mooring"],
      [⟨"berths", .sequence (.alias ⟨.ofSegments ["Port", "Berth"],
        .fixedArray (.primitive .u16) [2, 3]⟩) 0⟩, ⟨"label", .wideString⟩], none⟩,
    .union ⟨.ofSegments ["Port", ":Signal"], []⟩,
    .const ⟨.ofSegments ["Port", "LIMIT"], .primitive .f64, .float (Binary64.ofInt 12)⟩]

end Mooring

theorem mooring_round_trip :
    Mooring.json.Sized ∧ Declaration.decodeList? Mooring.json = some Mooring.graph ∧
      Declaration.decodeList? (Declaration.encodeList Mooring.graph) = some Mooring.graph := by
  have hsized : Mooring.json.Sized := by simp [Mooring.json, Json.ofNat]
  exact ⟨hsized, rfl, (graph_round_trip hsized rfl).1⟩

end InteropGen

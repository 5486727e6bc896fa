import InteropGen.Proofs.Transfer.Cases

/-!
# Where a transfer struct has its handles

A transfer struct holds handles to native memory: for strings, for sequences and for arrays that are
out of line, in its own fields, in the elements of its inline arrays and in the transfer structs
nested in it by value. What lies behind a handle, in a buffer, is no part of it.

* `LeafAt` — the leaves that the fields of a struct declare, handles and scalars, by their paths;
* `Resets` — a transfer struct before and after its handles were set back to null;
* `Resets.handle`, `Resets.scalar`, `Resets.frame` — what that means for every path;
* `Represents.handle_leaf`, `Represents.scalar_leaf` — what stands for a value has an allocated
  handle at every leaf for one, and none at the others;
* `Represents.resets` — the reset of a single handle.
-/

set_option autoImplicit false

namespace InteropGen

open CSharp

namespace CSharp

/-- One step into a value. -/
inductive Step where
  | field (name : String)
  | item (k : Nat)

/-- What is one step inside a value. Handles are not followed. -/
def Value.child? : Step → Value → Option Value
  | .field name, .record _ fields => some (fields name)
  | .item k, .array _ items => items[k]?
  | _, _ => none

/-- What is at the end of a path into a value. -/
def Value.place? : List Step → Value → Option Value
  | [], v => some v
  | step :: rest, v => v.child? step >>= place? rest

namespace Value

theorem place?_item (k : Nat) (rest : List Step) (rank : Nat) (items : List Value) (x : Value)
    (h : items[k]? = some x) : (array rank items).place? (.item k :: rest) = x.place? rest := by
  simp [place?, child?, h]

/-- Nothing is inside a handle. -/
theorem place?_handle (a : Option Address) (step : Step) (rest : List Step) :
    (handle a).place? (step :: rest) = none := by
  cases step <;> rfl

end Value

end CSharp

/-- What a leaf of a transfer struct holds. -/
inductive Leaf where
  | handle | scalar

/-- The leaves of what a transfer struct holds for a shape. An inline array has those of every
element, a struct those of every field. -/
inductive LeafAt (leaf : Leaf) : Shape → List Step → Prop
  | primitive (kind : PrimitiveKind) (hleaf : leaf = .scalar) : LeafAt leaf (.primitive kind) []
  | enum (e : EnumType) (hleaf : leaf = .scalar) : LeafAt leaf (.enum e) []
  | string (kind : StringKind) (hleaf : leaf = .handle) : LeafAt leaf (.string kind) []
  | sequence (element : Shape) (maxBound : Nat) (hleaf : leaf = .handle) :
      LeafAt leaf (.sequence element maxBound) []
  | outOfLine (e : Element) (dims : List Nat) (length : Nat)
      (htransfer : e.transfer dims = .outOfLine length) (hleaf : leaf = .handle) :
      LeafAt leaf (.array e.shape dims) []
  | inline (e : Element) (dims : List Nat) (length k : Nat) (path : List Step)
      (htransfer : e.transfer dims = .inline length) (hk : k < length)
      (hitem : LeafAt leaf e.shape path) : LeafAt leaf (.array e.shape dims) (.item k :: path)
  | struct (s : StructType) (f : Field) (path : List Step) (hf : f ∈ s.fields)
      (hfield : LeafAt leaf f.type.shape path) : LeafAt leaf (.struct s) (.field f.name :: path)

/-- The second value is the first, of a transfer struct or of a part of one, with its handles set
back to null. -/
inductive Resets : Shape → Value → Value → Prop
  | primitive (kind : PrimitiveKind) (x : Value) : Resets (.primitive kind) x x
  | enum (e : EnumType) (x : Value) : Resets (.enum e) x x
  | string (kind : StringKind) (a : Option Address) :
      Resets (.string kind) (.handle a) (.handle none)
  | sequence (element : Shape) (maxBound : Nat) (a : Option Address) :
      Resets (.sequence element maxBound) (.handle a) (.handle none)
  | outOfLine (e : Element) (dims : List Nat) (length : Nat) (a : Option Address)
      (htransfer : e.transfer dims = .outOfLine length) :
      Resets (.array e.shape dims) (.handle a) (.handle none)
  | inline (e : Element) (dims : List Nat) (length : Nat) (items after : List Value)
      (htransfer : e.transfer dims = .inline length) (hlength : items.length = length)
      (hafter : after.length = length)
      (hitems : ∀ (k : Nat) x y, items[k]? = some x → after[k]? = some y → Resets e.shape x y) :
      Resets (.array e.shape dims) (.array 1 items) (.array 1 after)
  | struct (s : StructType) (path : String) (fields after : String → Value)
      (hfields : ∀ f ∈ s.fields, Resets f.type.shape (fields f.name) (after f.name))
      (hothers : ∀ name, name ∉ s.fields.map (·.name) → after name = fields name) :
      Resets (.struct s) (.record path fields) (.record path after)

namespace Resets

/-- An array of what has no handles. -/
theorem inline_refl {e : Element} {dims : List Nat} {length : Nat} (items : List Value)
    (htransfer : e.transfer dims = .inline length) (hlength : items.length = length)
    (hsame : ∀ x, Resets e.shape x x) :
    Resets (.array e.shape dims) (.array 1 items) (.array 1 items) := by
  refine .inline e dims length items items htransfer hlength hlength ?_
  intro k x y hx hy
  cases hx.symm.trans hy
  exact hsame x

/-- What is at an index of an inline array, before and after. -/
theorem inline_item {e : Element} {dims : List Nat} {length k : Nat} {x y : Value}
    (h : Resets (.array e.shape dims) x y) (htransfer : e.transfer dims = .inline length)
    (hk : k < length) (path : List Step) :
    ∃ item item', x.place? (.item k :: path) = item.place? path ∧
      y.place? (.item k :: path) = item'.place? path ∧ Resets e.shape item item' := by
  generalize hshape : Shape.array e.shape dims = shape at h
  cases h with
  | inline e' dims' length' items after htransfer' hlength hafter hitems =>
    injection hshape with helement hdims
    cases Element.shape_injective helement
    subst hdims
    cases htransfer.symm.trans htransfer'
    have hitem := List.getElem?_eq_getElem (hlength ▸ hk : k < items.length)
    have hitem' := List.getElem?_eq_getElem (hafter ▸ hk : k < after.length)
    exact ⟨_, _, Value.place?_item k path 1 items _ hitem, Value.place?_item k path 1 after _ hitem',
      hitems k _ _ hitem hitem'⟩
  | outOfLine e' dims' length' a htransfer' =>
    injection hshape with helement hdims
    cases Element.shape_injective helement
    subst hdims
    cases htransfer.symm.trans htransfer'
  | _ => cases hshape

/-- The handle of an array that is out of line is null after. -/
theorem outOfLine_handle {e : Element} {dims : List Nat} {length : Nat} {x y : Value}
    (h : Resets (.array e.shape dims) x y) (htransfer : e.transfer dims = .outOfLine length) :
    y = .handle none := by
  generalize hshape : Shape.array e.shape dims = shape at h
  cases h with
  | outOfLine => rfl
  | inline e' dims' length' items after htransfer' =>
    injection hshape with helement hdims
    cases Element.shape_injective helement
    subst hdims
    cases htransfer.symm.trans htransfer'
  | _ => cases hshape

/-- Every handle is null. -/
theorem handle {shape : Shape} {x y : Value} (h : Resets shape x y) {path : List Step}
    (leaf : LeafAt .handle shape path) : y.place? path = some (.handle none) := by
  induction leaf generalizing x y with
  | primitive _ hleaf => cases hleaf
  | enum _ hleaf => cases hleaf
  | string =>
    cases h
    rfl
  | sequence =>
    cases h
    rfl
  | outOfLine e dims length htransfer =>
    rw [h.outOfLine_handle htransfer]
    rfl
  | inline e dims length k path htransfer hk _ ih =>
    obtain ⟨item, item', _, hafter, hitem⟩ := h.inline_item htransfer hk path
    rw [hafter]
    exact ih hitem
  | struct s f path hf _ ih =>
    cases h with
    | struct _ _ fields after hfields _ => exact ih (hfields f hf)

/-- Every scalar is what it was. -/
theorem scalar {shape : Shape} {x y : Value} (h : Resets shape x y) {path : List Step}
    (leaf : LeafAt .scalar shape path) : y.place? path = x.place? path := by
  induction leaf generalizing x y with
  | primitive =>
    cases h
    rfl
  | enum =>
    cases h
    rfl
  | string _ hleaf => cases hleaf
  | sequence _ _ hleaf => cases hleaf
  | outOfLine _ _ _ _ hleaf => cases hleaf
  | inline e dims length k path htransfer hk _ ih =>
    obtain ⟨item, item', hbefore, hafter, hitem⟩ := h.inline_item htransfer hk path
    rw [hbefore, hafter]
    exact ih hitem
  | struct s f path hf _ ih =>
    cases h with
    | struct _ _ fields after hfields _ => exact ih (hfields f hf)

/-- What holds no handle is what it was, whatever its path. -/
theorem frame {shape : Shape} {x y : Value} (h : Resets shape x y) (path : List Step)
    (hpath : ∀ inner, LeafAt .handle shape inner → ¬ path <+: inner) :
    y.place? path = x.place? path := by
  -- a handle has nothing inside, and its own path is excluded
  have hleaf : ∀ {shape : Shape} {a b : Option Address} {path : List Step},
      LeafAt .handle shape [] → (∀ inner, LeafAt .handle shape inner → ¬ path <+: inner) →
        (Value.handle b).place? path = (Value.handle a).place? path := by
    intro shape a b path leaf hpath
    cases path with
    | nil => exact absurd List.nil_prefix (hpath [] leaf)
    | cons step rest => rw [Value.place?_handle, Value.place?_handle]
  induction h generalizing path with
  | primitive => rfl
  | enum => rfl
  | string kind => exact hleaf (.string kind rfl) hpath
  | sequence element maxBound => exact hleaf (.sequence element maxBound rfl) hpath
  | outOfLine e dims length _ htransfer => exact hleaf (.outOfLine e dims length htransfer rfl) hpath
  | inline e dims length items after htransfer hlength hafter _ ih =>
    have hitem : ∀ k (hk : k < length) rest, (∀ inner, LeafAt .handle e.shape inner →
        ¬ rest <+: inner) → after[k].place? rest = items[k].place? rest := by
      intro k hk rest hrest
      exact ih k _ _ (List.getElem?_eq_getElem _) (List.getElem?_eq_getElem _) rest hrest
    cases path with
    | nil =>
      have hsame : after = items := by
        refine List.ext_getElem (hafter.trans hlength.symm) fun k hk hk' => ?_
        have hroot := hitem k (hafter ▸ hk) [] fun inner leaf _ =>
          hpath _ (.inline e dims length k inner htransfer (hafter ▸ hk) leaf) List.nil_prefix
        exact Option.some.inj hroot
      rw [hsame]
    | cons step rest =>
      cases step with
      | field name => rfl
      | item k =>
        by_cases hk : k < length
        · rw [Value.place?_item k rest 1 after _ (List.getElem?_eq_getElem (hafter ▸ hk)),
            Value.place?_item k rest 1 items _ (List.getElem?_eq_getElem (hlength ▸ hk))]
          exact hitem k hk rest fun inner leaf hprefix =>
            hpath _ (.inline e dims length k inner htransfer hk leaf)
              ((List.prefix_cons_inj _).mpr hprefix)
        · simp [Value.place?, Value.child?, List.getElem?_eq_none (hlength ▸ Nat.le_of_not_lt hk),
            List.getElem?_eq_none (hafter ▸ Nat.le_of_not_lt hk)]
  | struct s path' fields after _ hothers ih =>
    have hfield : ∀ name rest, (∀ f ∈ s.fields, f.name = name →
        ∀ inner, LeafAt .handle f.type.shape inner → ¬ rest <+: inner) →
          (after name).place? rest = (fields name).place? rest := by
      intro name rest hrest
      by_cases hname : name ∈ s.fields.map (·.name)
      · obtain ⟨f, hf, rfl⟩ := List.mem_map.mp hname
        exact ih f hf rest (hrest f hf rfl)
      · rw [hothers name hname]
    cases path with
    | nil =>
      have hsame : after = fields := by
        funext name
        have hroot := hfield name [] fun f hf _ inner leaf _ =>
          hpath _ (.struct s f inner hf leaf) List.nil_prefix
        exact Option.some.inj hroot
      rw [hsame]
    | cons step rest =>
      cases step with
      | item k => rfl
      | field name =>
        exact hfield name rest fun f hf hname inner leaf hprefix =>
          hpath _ (.struct s f inner hf leaf) (hname ▸ (List.prefix_cons_inj _).mpr hprefix)

end Resets

/-- No predefined type has handles among its values. -/
theorem CSharp.Builtin.Holds.ne_handle {b : Builtin} {v : Value} (h : b.Holds v)
    (a : Option Address) : v ≠ .handle a := by
  cases h <;> nofun

/-- A transfer struct holds no handle for a primitive. -/
theorem Platform.carried_ne_handle (m : Machine) (platform : Platform) (kind : PrimitiveKind)
    (v : Value) (hv : ∀ a, v ≠ .handle a) (a : Option Address) :
    platform.carried m kind v ≠ .handle a := by
  unfold Platform.carried
  split
  · nofun
  · split <;> nofun
  · exact hv a

section
variable {m : Machine} {t : Target}

/-- What is at an index of an inline array stands for an element. -/
theorem Represents.inline_place {e : Element} {dims : List Nat} {length k : Nat} {v native : Value}
    {mem : Memory} {lo hi : Nat} (rep : Represents m t mem lo hi (.array e.shape dims) v native)
    (htransfer : e.transfer dims = .inline length) (hk : k < length) (path : List Step) :
    ∃ f idx item, v = t.layout.arrayValue dims f ∧ InBounds dims idx ∧
      native.place? (.item k :: path) = item.place? path ∧
        Represents m t mem lo hi e.shape (f idx) item := by
  obtain ⟨f, natives, hv, rfl, _, hitems⟩ := rep.inline_items htransfer
  obtain ⟨rfl, _⟩ := Element.transfer_eq_inline htransfer
  obtain ⟨idx, hidx, rfl⟩ := exists_flat_eq dims k hk
  obtain ⟨item, hitem, hrep⟩ := hitems idx hidx
  exact ⟨f, idx, item, hv, hidx, Value.place?_item _ path 1 natives _ hitem, hrep⟩

/-- Wherever there is a handle, it is one of an allocated block. -/
theorem Represents.handle_leaf {mem : Memory} {lo hi : Nat} {shape : Shape} {v native : Value}
    (rep : Represents m t mem lo hi shape v native) {path : List Step}
    (leaf : LeafAt .handle shape path) :
    ∃ b, lo ≤ b ∧ b < hi ∧ native.place? path = some (.handle (some ⟨b, 0⟩)) := by
  induction leaf generalizing v native with
  | primitive _ hleaf => cases hleaf
  | enum _ hleaf => cases hleaf
  | string =>
    cases rep with
    | text _ _ _ b _ hlo hhi => exact ⟨b, hlo, hhi, rfl⟩
  | sequence =>
    cases rep with
    | sequence _ _ _ _ _ b _ hlo hhi => exact ⟨b, hlo, hhi, rfl⟩
  | outOfLine e dims length htransfer =>
    generalize hshape : Shape.array e.shape dims = shape at rep
    cases rep with
    | outOfLine _ _ _ _ _ b _ hlo hhi => exact ⟨b, hlo, hhi, rfl⟩
    | inline e' dims' length' f natives htransfer' =>
      injection hshape with helement hdims
      cases Element.shape_injective helement
      subst hdims
      cases htransfer.symm.trans htransfer'
    | _ => cases hshape
  | inline e dims length k path htransfer hk _ ih =>
    obtain ⟨_, _, item, _, _, hplace, hitem⟩ := rep.inline_place htransfer hk path
    rw [hplace]
    exact ih hitem
  | struct s f path hf _ ih =>
    cases rep with
    | struct _ fields natives hfields => exact ih (hfields f hf)

/-- A place that is itself one for a handle, set back to null. -/
theorem Represents.resets {mem : Memory} {lo hi : Nat} {shape : Shape} {v native : Value}
    (rep : Represents m t mem lo hi shape v native) (leaf : LeafAt .handle shape []) :
    Resets shape native (.handle none) := by
  obtain ⟨b, _, _, hplace⟩ := rep.handle_leaf leaf
  obtain rfl : native = .handle (some ⟨b, 0⟩) := Option.some.inj hplace
  cases leaf with
  | primitive _ hleaf => cases hleaf
  | enum _ hleaf => cases hleaf
  | string kind => exact .string kind _
  | sequence element maxBound => exact .sequence element maxBound _
  | outOfLine e dims length htransfer => exact .outOfLine e dims length _ htransfer

/-- A scalar is there, and is no handle. -/
theorem Represents.scalar_leaf {strict : Bool} {mem : Memory} {lo hi : Nat} {shape : Shape}
    {v native : Value} (typed : Typed m t strict shape v)
    (rep : Represents m t mem lo hi shape v native) {path : List Step}
    (leaf : LeafAt .scalar shape path) :
    ∃ x, native.place? path = some x ∧ ∀ a, x ≠ .handle a := by
  induction leaf generalizing v native with
  | primitive kind =>
    cases rep
    cases typed with
    | primitive _ _ holds =>
      exact ⟨_, rfl, t.platform.carried_ne_handle m kind v holds.ne_handle⟩
  | enum =>
    cases rep
    exact ⟨_, rfl, nofun⟩
  | string _ hleaf => cases hleaf
  | sequence _ _ hleaf => cases hleaf
  | outOfLine _ _ _ _ hleaf => cases hleaf
  | inline e dims length k path htransfer hk _ ih =>
    obtain ⟨f, idx, item, hv, hidx, hplace, hitem⟩ := rep.inline_place htransfer hk path
    obtain ⟨g, hg, _, _, helements⟩ := typed.array_cases
    rw [Layout.arrayValue_injective (hv.symm.trans hg) idx hidx] at hitem
    rw [hplace]
    exact ih (helements idx hidx) hitem
  | struct s f path hf _ ih =>
    cases rep with
    | struct _ fields natives hreps =>
      cases typed with
      | struct _ _ hfields _ => exact ih (hfields f hf) (hreps f hf)

end

end InteropGen

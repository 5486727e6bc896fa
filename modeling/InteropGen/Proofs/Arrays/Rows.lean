import InteropGen.Proofs.Arrays.Conversions

/-!
# The rows of arrays of arrays

What a sequence of events does to a property whose type is an array of arrays: which rows there are
after it, if no event reaches below an item that holds no row, or past the end of one.

* `Rows.run?` — the rows after events, from any rows before;
* `Rows.run?_jaggedEvents` — the induction over the dimensions: where a row is allocated before its
  items are visited, everything below it comes to be there.
-/

set_option autoImplicit false

namespace InteropGen

open CSharp

namespace CSharp

section
variable {α ι : Type} (item? : α → ι → Option α) (setItem? : α → α → ι → Option α)

/-- Replaces what stands at the end of a path, given how an item is taken out of what holds it, and
how it is put back. -/
def putAlong (x : α) : α → (path : List ι) → Option α
  | _, [] => some x
  | a, i :: inner => do
    let item ← item? a i
    let changed ← putAlong x item inner
    setItem? changed a i

theorem putAlong_append (x a : α) (p q : List ι) :
    putAlong item? setItem? x a (p ++ q) =
      p.foldlM item? a >>= (putAlong item? setItem? x · q) >>= fun changed =>
        putAlong item? setItem? changed a p := by
  induction p generalizing a with
  | nil => simp [putAlong]
  | cons i inner ih =>
    rw [List.cons_append, putAlong, List.foldlM_cons]
    cases hitem : item? a i with
    | none => simp
    | some item =>
      rw [Option.bind_eq_bind, Option.bind_some, ih item]
      simp [putAlong, hitem, Option.bind_assoc]

end

/-- The rows of a property, as a tree. Whatever is no row is a leaf, null included. -/
inductive Rows where
  | leaf
  /-- A row of the given type; its length is the number of its cells. -/
  | row (type : Ty) (cells : List Rows)

/-- The indices of a place in the property of a name. -/
def Spot.within? (name : String) : Spot → Option (List (List Nat))
  | .element .value field groups => if field = name then some groups else none
  | _ => none

namespace Rows

/-- The item of a row. A leaf has none. -/
def item? : Rows → List Nat → Option Rows
  | .row _ cells, [i] => cells[i]?
  | _, _ => none

/-- The row with an item replaced. -/
def setItem? (x : Rows) : Rows → List Nat → Option Rows
  | .row type cells, [i] => if i < cells.length then some (.row type (cells.set i x)) else none
  | _, _ => none

/-- What stands at a place, with indices for each pair of brackets. -/
def reach? (r : Rows) (groups : List (List Nat)) : Option Rows :=
  groups.foldlM item? r

/-- The tree with what stands at a place replaced. -/
def put? (x r : Rows) (groups : List (List Nat)) : Option Rows :=
  putAlong item? setItem? x r groups

/-- The row with its first items changed to what holds no rows. -/
def clear (n : Nat) : Rows → Rows
  | .row type cells => .row type (List.replicate n .leaf ++ cells.drop n)
  | .leaf => .leaf

section
variable (name : String) (r : Rows)

/-- Whether a place can be reached, if it is in the property. -/
def reaches (place : Spot) : Bool :=
  match place.within? name with
  | some groups => (r.reach? groups).isSome
  | none => true

/-- The tree with a place replaced, if it is in the property. -/
def store? (x : Rows) (place : Spot) : Option Rows :=
  match place.within? name with
  | some groups => put? x r groups
  | none => some r

/-- Whether a field has so many items, if it is the property. -/
def holds (field : Owner × String) (n : Nat) : Bool :=
  if field = (.value, name) then
    match r with
    | .row _ cells => n ≤ cells.length
    | .leaf => false
  else true

/-- The rows of the property after an event. There are none if the event reaches for a row that is
not there. -/
def after? : Event → Option Rows
  | .allocate place element dims inner =>
    match dims with
    | [d] =>
      r.store? name (.row (.array (nestedArrays element inner) 1) (List.replicate d .leaf)) place
    | _ => if place.within? name = none then some r else none
  | .reserve place _ _ => r.store? name .leaf place
  | .assign place sources =>
    if sources.all (r.reaches name) then r.store? name .leaf place else none
  | .fill place sources =>
    if (place :: sources).all (r.reaches name) then r.store? name .leaf place else none
  | .copy source target n =>
    if r.holds name source n && r.holds name target n then
      some (if target = (.value, name) then r.clear n else r)
    else none
  | .visit places => if places.all (r.reaches name) then some r else none

/-- The rows of the property after a sequence of events. -/
def run? (events : List Event) : Option Rows :=
  events.foldlM (after? name) r

end

/-- All rows of an array of the given dimensions, each of the type that its level has. -/
def full (element : Ty) : (dims : List Nat) → Rows
  | [] => .leaf
  | d :: rest => .row (nestedArrays element (rest.length + 1)) (List.replicate d (full element rest))

@[simp] theorem run?_singleton (name : String) (r : Rows) (event : Event) :
    r.run? name [event] = r.after? name event := by
  simp [run?]

theorem run?_append (name : String) (a b : List Event) (r : Rows) :
    r.run? name (a ++ b) = r.run? name a >>= fun next => next.run? name b :=
  List.foldlM_append

/-- A tree around one spot: it can be reached, and putting something else there changes nothing
around it. -/
structure At (idx : List Nat) (around : Rows → Rows) : Prop where
  reach : ∀ x, (around x).reach? (idx.map ([·])) = some x
  put : ∀ x y, put? y (around x) (idx.map ([·])) = some (around y)

theorem At.root : At [] id :=
  ⟨fun _ => rfl, fun _ _ => rfl⟩

/-- One index further. -/
theorem At.item {o : List Nat} {around : Rows → Rows} (outer : At o around) (type : Ty)
    (before after : List Rows) :
    At (o ++ [before.length]) fun x => around (.row type (before ++ x :: after)) where
  reach x := by
    have hrow := outer.reach (.row type (before ++ x :: after))
    rw [reach?] at hrow
    rw [reach?, List.map_append, List.foldlM_append, hrow]
    simp [item?]
  put x y := by
    have hrow := outer.reach (.row type (before ++ x :: after))
    have hput := outer.put (.row type (before ++ x :: after)) (.row type (before ++ y :: after))
    rw [reach?] at hrow
    rw [put?] at hput
    rw [put?, List.map_append, putAlong_append, hrow]
    simp [putAlong, item?, setItem?, hput]

/-- Every element of an array has its spot. -/
theorem At.of_inBounds (element : Ty) {dims idx : List Nat} (h : InBounds dims idx)
    {o : List Nat} {around : Rows → Rows} (outer : At o around) :
    ∃ inner, At (o ++ idx) inner ∧ inner .leaf = around (full element dims) := by
  induction dims generalizing idx o around with
  | nil =>
    rw [h.eq_nil, List.append_nil]
    exact ⟨around, outer, rfl⟩
  | cons d rest ih =>
    obtain ⟨i, tail, rfl, hi, htail⟩ := h.cases_cons
    let row := full element rest
    have hinside := outer.item (nestedArrays element (rest.length + 1)) (List.replicate i row)
      (List.replicate (d - (i + 1)) row)
    rw [List.length_replicate] at hinside
    obtain ⟨inner, hinner, heq⟩ := ih htail hinside
    refine ⟨inner, by rwa [List.append_cons], ?_⟩
    have hrow : List.replicate i row ++ row :: List.replicate (d - (i + 1)) row =
        List.replicate d row := by
      rw [← List.replicate_succ, List.replicate_append_replicate]
      congr 1
      omega
    rw [heq, full, hrow]

section
variable (f : FieldView)

theorem within?_item (idx : List Nat) :
    (f.item .jagged idx).within? f.site.field = some (idx.map ([·])) := by
  simp [FieldView.item, Layout.brackets, Spot.within?]

section
variable (element : Ty) (dims : List Nat)

/-- The allocation of a row, at a place that can be reached. -/
theorem after?_rowEvent (o : List Nat) (d : Nat) (rest : List Nat)
    (hleft : dims.drop o.length = d :: rest) {around : Rows → Rows} (outer : At o around)
    (x : Rows) :
    (around x).after? f.site.field (f.rowEvent element dims o) =
      some (around (.row (nestedArrays element (rest.length + 1)) (List.replicate d .leaf))) := by
  have hdim : dims.getD o.length 0 = d := by
    have hget : (dims.drop o.length)[0]? = some d := by rw [hleft]; rfl
    rw [List.getElem?_drop, Nat.add_zero] at hget
    rw [List.getD_eq_getElem?_getD, hget]
    rfl
  have hmore : dims.length - (o.length + 1) = rest.length := by
    have hlength := congrArg List.length hleft
    rw [List.length_drop, List.length_cons] at hlength
    omega
  rw [FieldView.rowEvent, hdim, hmore]
  simp only [after?, store?, within?_item]
  exact outer.put x _

/-- Filling the part of an array below a spot. The events of an element find a leaf in its place and
leave one there. -/
theorem run?_jaggedEvents (body : List Nat → List Event)
    (hbody : ∀ idx around, At idx around →
      (around .leaf).run? f.site.field (body idx) = some (around .leaf))
    (rest o : List Nat) (hleft : dims.drop o.length = rest) {around : Rows → Rows}
    (outer : At o around) (x : Rows) (hx : rest = [] → x = .leaf) :
    (around x).run? f.site.field (jaggedEvents (f.rowEvent element dims) body o rest) =
      some (around (full element rest)) := by
  induction rest generalizing o around x with
  | nil =>
    rw [hx rfl]
    exact hbody o around outer
  | cons d rest ih =>
    let type := nestedArrays element (rest.length + 1)
    let filled := full element rest
    have hinner : ∀ i, dims.drop (o ++ [i]).length = rest := by
      intro i
      rw [List.length_append, List.length_singleton, ← List.drop_drop, hleft]
      rfl
    -- the loop has filled the first `k` items
    have hloop : ∀ k ≤ d, (around (.row type (List.replicate d leaf))).run? f.site.field
        ((List.range k).flatMap fun i =>
          jaggedEvents (f.rowEvent element dims) body (o ++ [i]) rest) =
        some (around (.row type (List.replicate k filled ++ List.replicate (d - k) leaf))) := by
      intro k hk
      induction k with
      | zero => rfl
      | succ k ihk =>
        have hnext : List.replicate (d - k) leaf = leaf :: List.replicate (d - (k + 1)) leaf := by
          rw [← List.replicate_succ]
          congr 1
          omega
        have hspot := outer.item type (List.replicate k filled) (List.replicate (d - (k + 1)) leaf)
        rw [List.length_replicate] at hspot
        have hitem := ih (o ++ [k]) (hinner k) hspot leaf fun _ => rfl
        rw [List.range_succ, List.flatMap_append, List.flatMap_singleton, run?_append,
          ihk (Nat.le_of_succ_le hk), hnext]
        refine hitem.trans ?_
        rw [List.replicate_succ', List.append_assoc, List.singleton_append]
    have hrow := after?_rowEvent f element dims o d rest hleft outer x
    have hall := hloop d (Nat.le_refl d)
    rw [Nat.sub_self, List.replicate_zero, List.append_nil] at hall
    rw [jaggedEvents, run?, List.foldlM_cons, hrow]
    exact hall

/-- Filling an array, whatever the property held before. -/
theorem run?_arrayEvents (body : List Nat → List Event)
    (hbody : ∀ idx around, At idx around →
      (around .leaf).run? f.site.field (body idx) = some (around .leaf))
    (hne : dims ≠ []) (previous : Rows) :
    previous.run? f.site.field (f.arrayEvents .jagged element dims body) =
      some (full element dims) :=
  run?_jaggedEvents f element dims body hbody dims [] rfl At.root previous fun h => absurd h hne

/-- Going through a full array once more. -/
theorem run?_full (body : List Nat → List Event)
    (hbody : ∀ idx around, At idx around →
      (around .leaf).run? f.site.field (body idx) = some (around .leaf)) :
    (full element dims).run? f.site.field ((rowMajor dims).flatMap body) =
      some (full element dims) := by
  have hkeeps : ∀ items : List (List Nat), (∀ idx ∈ items, InBounds dims idx) →
      (full element dims).run? f.site.field (items.flatMap body) = some (full element dims) := by
    intro items hitems
    induction items with
    | nil => rfl
    | cons idx rest ih =>
      obtain ⟨hidx, hrest⟩ := List.forall_mem_cons.mp hitems
      obtain ⟨inner, hspot, hinner⟩ := At.of_inBounds element hidx At.root
      have hfirst := hbody idx inner hspot
      rw [hinner, id_eq] at hfirst
      rw [List.flatMap_cons, run?_append, hfirst]
      exact ih hrest
  exact hkeeps (rowMajor dims) fun idx => mem_rowMajor.mp

end

section
variable {idx : List Nat} {around : Rows → Rows} (spot : At idx around)

include spot

/-- An element that is assigned, from places that are not in the property. -/
theorem after?_assignItem (sources : List Spot)
    (hsources : ∀ source ∈ sources, source.within? f.site.field = none) :
    (around .leaf).after? f.site.field (.assign (f.item .jagged idx) sources) =
      some (around .leaf) := by
  have hreach : sources.all ((around .leaf).reaches f.site.field) = true := by
    rw [List.all_eq_true]
    intro source hsource
    simp [reaches, hsources source hsource]
  simp only [after?, hreach, if_true, store?, within?_item]
  exact spot.put .leaf .leaf

/-- An element that is filled in by a call. -/
theorem after?_fillItem (sources : List Spot)
    (hsources : ∀ source ∈ sources, source.within? f.site.field = none) :
    (around .leaf).after? f.site.field (.fill (f.item .jagged idx) sources) =
      some (around .leaf) := by
  have hreach : (f.item .jagged idx :: sources).all ((around .leaf).reaches f.site.field) = true := by
    rw [List.all_cons, Bool.and_eq_true, List.all_eq_true]
    refine ⟨by simp [reaches, within?_item, spot.reach], ?_⟩
    intro source hsource
    simp [reaches, hsources source hsource]
  simp only [after?, hreach, if_true, store?, within?_item]
  exact spot.put .leaf .leaf

theorem run?_assignItem (sources : List Spot)
    (hsources : ∀ source ∈ sources, source.within? f.site.field = none) :
    (around .leaf).run? f.site.field [.assign (f.item .jagged idx) sources] =
      some (around .leaf) := by
  simp [run?, after?_assignItem f spot sources hsources]

/-- An element on its way out of an inline array. -/
theorem run?_loadEvents (e : Element) (native : Spot) (hnative : native.within? f.site.field = none) :
    (around .leaf).run? f.site.field (e.loadEvents (f.item .jagged idx) native) =
      some (around .leaf) := by
  have hsources : ∀ source ∈ [native], source.within? f.site.field = none := by
    simpa using hnative
  cases e with
  | struct s =>
    have hnew := after?_assignItem f spot [] (by simp)
    simp [Element.loadEvents, run?, hnew, after?_fillItem f spot [native] hsources]
  | _ => exact run?_assignItem f spot [native] hsources

/-- An element taken from a slot. -/
theorem run?_slotEvents (native : Spot) (hnative : native.within? f.site.field = none) :
    (around .leaf).run? f.site.field
      [.visit [native], .assign (f.item .jagged idx) [native]] = some (around .leaf) := by
  have hvisit : (around .leaf).after? f.site.field (.visit [native]) = some (around .leaf) := by
    simp [after?, reaches, hnative]
  have hassign := after?_assignItem f spot [native] (by simpa using hnative)
  simp [run?, hvisit, hassign]

/-- The first value of an element. -/
theorem run?_initialEvents (e : Element) :
    (around .leaf).run? f.site.field (e.initialEvents (f.item .jagged idx)) =
      some (around .leaf) := by
  unfold Element.initialEvents
  split
  · exact run?_assignItem f spot [] (by simp)
  · rfl

end

end

end Rows

end CSharp

end InteropGen

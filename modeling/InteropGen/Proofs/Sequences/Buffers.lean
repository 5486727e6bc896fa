import InteropGen.Proofs.OptionMap
import InteropGen.Proofs.Sequences.Slots
import InteropGen.Proofs.Transfer.Cases
import InteropGen.Proofs.Transfer.Hosts

/-!
# Buffers of sequences

A sequence crosses the native boundary in one block: the number of elements, then a slot for each of
them. The code computes the size of the block and the place of each slot in 32 bits. Where the size
fits, `ToNative` fills exactly the block that it allocates, and `FromNative` reads that block in the
same way, for every kind of element, every bound and every length. Where it does not, `ToNative`
writes to memory that it did not allocate.

* `sequenceToNative_accesses`, `sequenceFromNative_accesses` — the two conversions;
* `filling_inside`, `filling_apart` — no byte outside of the block is written, and none twice;
* `filling32_outside` — unless the block is too large;
* `sequence_buffers` — all of this, for every accepted field.
-/

set_option autoImplicit false

namespace InteropGen

open CSharp

/-- How many elements of a list are copied, which may be null. -/
def copied (maxBound : Nat) : Option Nat → Nat
  | none => 0
  | some n => cutTo maxBound n

/-- What is copied is there. -/
theorem exists_of_lt_copied {maxBound k : Nat} {items : Option Nat}
    (h : k < copied maxBound items) : ∃ n, items = some n ∧ k < n := by
  cases items with
  | none => exact absurd h (Nat.not_lt_zero k)
  | some n => exact ⟨n, rfl, Nat.lt_of_lt_of_le h (cutTo_le maxBound n)⟩

/-- The accesses that allocate a block and fill it with the number of elements and the elements. -/
def filling (width count : Nat) : List Access :=
  .reserve (4 + count * width : Nat) :: .store 0 4 [.number count] ::
    (List.range count).map fun k => .store (4 + k * width : Nat) width [.item k]

/-- The accesses that make a list of so many elements of a block. -/
def reading (width count : Nat) : List Access :=
  .fresh :: .load 0 4 :: (List.range count).flatMap fun k =>
    [.load (4 + k * width : Nat) width, .append [.slot (4 + k * width : Nat) width]]

/-- Where the slot after `k` others begins, in 32 bits. -/
def slotStart32 (width k : Nat) : Int :=
  int32 (4 + k * width)

/-- The filling of a block, its size and the places in it in 32 bits. -/
def filling32 (width count : Nat) : List Access :=
  .reserve (slotStart32 width count) :: .store 0 4 [.number count] ::
    (List.range count).map fun k => .store (slotStart32 width k) width [.item k]

/-- The reading of a block, the places in it in 32 bits. -/
def reading32 (width count : Nat) : List Access :=
  .fresh :: .load 0 4 :: (List.range count).flatMap fun k =>
    [.load (slotStart32 width k) width, .append [.slot (slotStart32 width k) width]]

/-! ## A filled block -/

theorem filling_stores (width count : Nat) :
    (filling width count).flatMap Access.stores =
      (0, 4) :: (List.range count).map fun k => (((4 + k * width : Nat) : Int), width) := by
  simp only [filling, List.flatMap_cons, List.flatMap_map, Access.stores, List.nil_append,
    List.singleton_append]
  rw [← List.map_eq_flatMap]

/-- Everything is written inside of the block. -/
theorem filling_inside (width count : Nat) :
    ∀ s ∈ (filling width count).flatMap Access.stores,
      0 ≤ s.1 ∧ s.1 + (s.2 : Int) ≤ ((4 + count * width : Nat) : Int) := by
  rw [filling_stores]
  refine List.forall_mem_cons.mpr ⟨by dsimp only; omega, List.forall_mem_map.mpr fun k hk => ?_⟩
  have hend := row_end_le (p := width) (List.mem_range.mp hk)
  constructor <;> omega

/-- Every store ends before the next begins. -/
theorem filling_apart (width count : Nat) :
    ((filling width count).flatMap Access.stores).Pairwise fun a b => a.1 + (a.2 : Int) ≤ b.1 := by
  rw [filling_stores, List.pairwise_cons, List.pairwise_map]
  refine ⟨List.forall_mem_map.mpr fun k _ => by dsimp only; omega, ?_⟩
  refine List.pairwise_lt_range.imp fun {j k} hjk => ?_
  have hend := row_end_le (p := width) hjk
  omega

/-- The bytes that are read are those that were written. -/
theorem reading_loads (width count : Nat) :
    (reading width count).flatMap Access.loads = (filling width count).flatMap Access.stores := by
  rw [filling_stores]
  simp only [reading, List.flatMap_cons, List.flatMap_assoc, List.flatMap_nil, Access.loads,
    List.nil_append, List.append_nil, List.singleton_append]
  rw [← List.map_eq_flatMap]

theorem reading_appended (width count : Nat) :
    (reading width count).flatMap Access.appended =
      (List.range count).map fun k => [Origin.slot (4 + k * width : Nat) width] := by
  simp only [reading, List.flatMap_cons, List.flatMap_assoc, List.flatMap_nil, Access.appended,
    List.nil_append, List.append_nil]
  rw [← List.map_eq_flatMap]

/-! ## Sizes in 32 bits -/

section
variable {width count : Nat}

theorem slotStart32_eq {k : Nat} (h : 4 + k * width ≤ 2147483647) :
    slotStart32 width k = (4 + k * width : Nat) := by
  have hexact := int32_natCast h
  push_cast at hexact ⊢
  exact hexact

/-- In a block whose size fits, so does every place. -/
theorem slotStart32_of_lt (hfits : 4 + count * width ≤ 2147483647) {k : Nat} (hk : k < count) :
    slotStart32 width k = (4 + k * width : Nat) := by
  have hend := row_end_le (p := width) hk
  exact slotStart32_eq (by omega)

theorem filling32_eq (hfits : 4 + count * width ≤ 2147483647) :
    filling32 width count = filling width count := by
  have hslots : ∀ k ∈ List.range count, Access.store (slotStart32 width k) width [.item k] =
      .store (4 + k * width : Nat) width [.item k] := by
    intro k hk
    rw [slotStart32_of_lt hfits (List.mem_range.mp hk)]
  rw [filling32, filling, slotStart32_eq hfits, List.map_congr_left hslots]

theorem reading32_eq (hfits : 4 + count * width ≤ 2147483647) :
    reading32 width count = reading width count := by
  have hslots : ∀ k ∈ List.range count,
      [Access.load (slotStart32 width k) width, .append [.slot (slotStart32 width k) width]] =
        [.load (4 + k * width : Nat) width, .append [.slot (4 + k * width : Nat) width]] := by
    intro k hk
    rw [slotStart32_of_lt hfits (List.mem_range.mp hk)]
  rw [reading32, reading, List.flatMap_congr hslots]

theorem filling32_stores (width count : Nat) :
    (filling32 width count).flatMap Access.stores =
      (0, 4) :: (List.range count).map fun k => (slotStart32 width k, width) := by
  simp only [filling32, List.flatMap_cons, List.flatMap_map, Access.stores, List.nil_append,
    List.singleton_append]
  rw [← List.map_eq_flatMap]

/-- Of a block that is too large, something is written outside of what is allocated. -/
theorem filling32_outside (hwidth : 0 < width) (hlarge : 2147483647 < 4 + count * width) :
    ∃ s ∈ (filling32 width count).flatMap Access.stores,
      slotStart32 width count < s.1 + (s.2 : Int) := by
  rw [filling32_stores]
  have hbound : slotStart32 width count ≤ 2147483647 := (inInt32_int32 _).2
  by_cases hsmall : slotStart32 width count < 4
  · -- not even the number of elements fits
    exact ⟨_, List.mem_cons_self, by simpa using hsmall⟩
  · -- the slots up to this one do, and it is the last that begins inside
    obtain ⟨bytes, hbytes⟩ : ∃ bytes : Nat, slotStart32 width count = (4 + bytes : Nat) :=
      ⟨(slotStart32 width count - 4).toNat, by omega⟩
    let k := bytes / width
    have hstart : k * width ≤ bytes := Nat.div_mul_le_self bytes width
    have hend : bytes < k * width + width := Nat.lt_div_mul_add hwidth
    have hk : k < count := by
      by_contra hge
      have hwhole := Nat.mul_le_mul_right width (Nat.le_of_not_lt hge)
      omega
    have hexact := @slotStart32_eq width k (by omega)
    refine ⟨(slotStart32 width k, width), List.mem_cons_of_mem _ (List.mem_map.mpr
      ⟨k, List.mem_range.mpr hk, rfl⟩), ?_⟩
    simp only [hexact, hbytes]
    omega

end

/-! ## The two conversions -/

section
variable {m : Machine}

theorem amount_bounded {o : Outlook} {maxBound count : Nat} (hbound : maxBound ≤ 2147483647)
    {x : Expr} (hx : x.amount? o = some (count : Int)) :
    (bounded x maxBound).amount? o = some (cutTo maxBound count : Int) := by
  have hmax : InInt32 maxBound := ⟨by omega, by omega⟩
  unfold bounded cutTo
  split
  · exact hx
  · have hmin : min (count : Int) maxBound = (min count maxBound : Nat) := by omega
    simp only [Expr.amount?, hx, if_pos hmax, hmin, Option.bind_eq_bind, Option.bind_some,
      Option.pure_def]

theorem amount_count (f : FieldView) (maxBound : Nat) (items : Option Nat)
    (hitems : ∀ n ∈ items, n ≤ 2147483647) (hbound : maxBound ≤ 2147483647) :
    (Expr.conditional (.binary .equal f.value (.constant .null)) (.nat 0)
      (bounded (.listCount f.value) maxBound)).amount?
        (.start m f.site.field (.list items)) = some (copied maxBound items : Int) := by
  cases items with
  | none =>
    have hzero : InInt32 0 := by decide
    simp [Expr.amount?, Outlook.holds?, FieldView.value, Outlook.start, copied, hzero]
  | some n =>
    have hn := hitems n rfl
    have hitem : InInt32 n := ⟨by omega, by omega⟩
    have hlength : (Expr.listCount f.value).amount?
        (.start m f.site.field (.list (some n))) = some (n : Int) := by
      simp [Expr.amount?, FieldView.value, Outlook.start, Outlook.itemCount?, hitem]
    have hcut := amount_bounded hbound hlength
    rw [Expr.amount?]
    simpa [Outlook.holds?, FieldView.value, Outlook.start, copied] using hcut

/-- The numbers that a conversion declares before its loop. -/
def counted (m : Machine) (field : String) (given : Given) (count width : Nat) : Outlook :=
  { Outlook.start m field given with
    numbers := [(.size, (width : Int)), (.count, (count : Int))] }

namespace Target

variable (t : Target) (e : Element) (f : FieldView) (depth maxBound : Nat)

/-- The declarations of the two numbers. -/
theorem accesses_numbers {given : Given} {count : Nat} {x : Expr} {loads : List Access}
    (hloads : x.loads? (.start m f.site.field given) = some loads)
    (hcount : x.amount? (.start m f.site.field given) = some (count : Int)) (rest : List Stmt) :
    bodyAccesses? (.declare (.builtin .int) .count x ::
      .declare (.builtin .int) .size (t.slot e).size :: rest) (.start m f.site.field given) =
        (bodyAccesses? rest (counted m f.site.field given count ((t.slot e).width m))).map
          (loads ++ ·) := by
  let o : Outlook := ⟨m, f.site.field, given, [(.count, (count : Int))], []⟩
  have hfirst : (Stmt.declare (.builtin .int) .count x).accesses? (.start m f.site.field given) =
      some (loads, o) := accesses_declareInt hloads hcount
  have hsecond : (Stmt.declare (.builtin .int) .size (t.slot e).size).accesses? o =
      some ([], counted m f.site.field given count ((t.slot e).width m)) :=
    accesses_declareInt (loads_slotSize t e) (amount_slotSize t e)
  rw [bodyAccesses_step hfirst, bodyAccesses_step hsecond]
  simp only [List.nil_append, Option.map_id']

/-- The rounds of the loop over the elements. -/
theorem accesses_elements {given : Given} {count width : Nat} {body : List Stmt}
    {accesses : Nat → List Access}
    (hround : ∀ k < count, bodyAccesses? body
      ((counted m f.site.field given count width).round depth k) = some (accesses k)) :
    bodyAccesses? [.countUp depth (.var .count) body] (counted m f.site.field given count width) =
      some ((List.range count).flatMap accesses) := by
  have hbound : (Expr.var .count).amount? (counted m f.site.field given count width) =
      some (count : Int) := (amount_var _).trans rfl
  have hrounds := option_mapM_of_mem (fun (k : Nat) => bodyAccesses? body
    ((counted m f.site.field given count width).round depth k)) accesses (List.range count)
    fun k hk => hround k (List.mem_range.mp hk)
  simp [bodyAccesses?, Stmt.accesses?, hbound, hrounds, List.flatMap_def]

/-- The slot of the element in each round. -/
theorem sequenceOffset_liesAt (field : String) (given : Given) (count width k : Nat)
    (staged : List (Local × Ty × List Origin)) :
    LiesAt { (counted m field given count width).round depth k with staged := staged }
      (sequenceOffset (counter depth)) (slotStart32 width k) := by
  constructor
  · refine amount_pastCount ?_ ?_
    · simp [counter, amount_var, Outlook.round]
    · exact (amount_var _).trans rfl
  · simp [sequenceOffset, counter, Expr.loads?, allLoads?]

/-- The item of the list in each round. -/
theorem item_madeFrom {n k : Nat} (hk : k < n) (count width : Nat)
    (staged : List (Local × Ty × List Origin)) :
    MadeFrom { (counted m f.site.field (.list (some n)) count width).round depth k with
      staged := staged } (.index f.value [counter depth]) [] (.item k) := by
  constructor
  · simp [Expr.loads?, allLoads?, FieldView.value, counter]
  · simp [Expr.origins?, Expr.amount?, FieldView.value, counter, Outlook.round, counted,
      Outlook.start, Outlook.item?, hk]

/-- The statements before the loop: the block is allocated, and the number of elements stored. -/
theorem accesses_block {items : Option Nat} {count width : Nat} {rest : List Stmt}
    {more : List Access}
    (hrest : bodyAccesses? rest (counted m f.site.field (.list items) count width) = some more) :
    bodyAccesses?
      (allocate f.native (.sum [.constant .sizeOfInt, .binary .times (.var .count) (.var .size)]) ++
        .run (.call (.write .int32) [f.native, .nat 0, .var .count]) :: rest)
      (counted m f.site.field (.list items) count width) =
        some (.reserve (slotStart32 width count) :: .store 0 4 [.number count] :: more) := by
  let o := counted m f.site.field (.list items) count width
  have hfills : o.fills f.site.field = true := by simp [o, counted, Outlook.start, Outlook.fills]
  have hcount : (Expr.var .count).amount? o = some (count : Int) := (amount_var _).trans rfl
  have hsize : (Expr.var .size).amount? o = some (width : Int) := (amount_var _).trans rfl
  have hzero : InInt32 0 := by decide
  have hbytes := amount_pastCount hcount hsize
  have hreserve : (Stmt.assign f.native (.call .allocHGlobal
      [.sum [.constant .sizeOfInt, .binary .times (.var .count) (.var .size)]])).accesses? o =
        some ([.reserve (slotStart32 width count)], o) := by
    simp [Stmt.accesses?, Stmt.leafAccesses?, FieldView.native, Expr.loads?, allLoads?, hbytes,
      hfills, slotStart32]
  have hrelease : (Stmt.run (.invoke (.var .toRelease) .add [f.native])).accesses? o =
      some ([], o) := by
    simp [Stmt.accesses?, Stmt.leafAccesses?, Expr.callAccesses?, FieldView.native, Expr.loads?]
  have horigin : (Expr.var .count).origins? o = some [.number count] := by
    rw [Expr.origins?]
    rfl
  have hwrite : (Stmt.run (.call (.write .int32) [f.native, .nat 0, .var .count])).accesses? o =
      some ([.store 0 4 [.number count]], o) := by
    simp [Stmt.accesses?, Stmt.leafAccesses?, Expr.callAccesses?, allLoads?, Expr.loads?,
      Expr.target?, FieldView.native, hfills, horigin, Expr.amount?, hzero, Machine.wordWidth]
  exact bodyAccesses_cons hreserve (bodyAccesses_cons hrelease (bodyAccesses_cons hwrite hrest))

theorem loads_bounded {o : Outlook} {x : Expr} {loads : List Access} (h : x.loads? o = some loads) :
    (bounded x maxBound).loads? o = some loads := by
  unfold bounded
  split
  · exact h
  · simp [Expr.loads?, allLoads?, h]

theorem loads_count (items : Option Nat) :
    (Expr.conditional (.binary .equal f.value (.constant .null)) (.nat 0)
      (bounded (.listCount f.value) maxBound)).loads? (.start m f.site.field (.list items)) =
        some [] := by
  have hcondition : (Expr.binary .equal f.value (.constant .null)).loads?
      (.start m f.site.field (.list items)) = some [] := by
    simp [Expr.loads?, FieldView.value]
  have hlength : (Expr.listCount f.value).loads? (.start m f.site.field (.list items)) =
      some [] := by
    simp [Expr.loads?, FieldView.value]
  rw [Expr.loads?, hcondition, loads_bounded maxBound hlength]
  simp [Expr.loads?]

/-- What is left of a block after the two numbers are declared. -/
theorem accesses_afterNumbers (items : Option Nat) (hitems : ∀ n ∈ items, n ≤ 2147483647)
    (hbound : maxBound ≤ 2147483647) :
    bodyAccesses? (t.sequenceToNative depth f e maxBound) (.start m f.site.field (.list items)) =
      bodyAccesses?
        (allocate f.native
            (.sum [.constant .sizeOfInt, .binary .times (.var .count) (.var .size)]) ++
          .run (.call (.write .int32) [f.native, .nat 0, .var .count]) ::
            countedLoop depth (.var .count) fun i =>
              t.storeInSlot e f.native (sequenceOffset i) (.index f.value [i]))
        (counted m f.site.field (.list items) (copied maxBound items) ((t.slot e).width m)) := by
  have hnumbers := t.accesses_numbers (m := m) e f (loads_count f maxBound items)
    (amount_count f maxBound items hitems hbound)
  refine (bodyAccesses_block _).trans ((hnumbers _).trans ?_)
  simp only [List.nil_append, Option.map_id']
  rfl

/-- A list that goes into a block. -/
theorem sequenceToNative_accesses (items : Option Nat) (hitems : ∀ n ∈ items, n ≤ 2147483647)
    (hbound : maxBound ≤ 2147483647) :
    bodyAccesses? (t.sequenceToNative depth f e maxBound)
      (.start m f.site.field (.list items)) =
        some (filling32 ((t.slot e).width m) (copied maxBound items)) := by
  let count := copied maxBound items
  let width := (t.slot e).width m
  have hround : ∀ k < count, bodyAccesses?
      (t.storeInSlot e f.native (sequenceOffset (counter depth)) (.index f.value [counter depth]))
      ((counted m f.site.field (.list items) count width).round depth k) =
        some [.store (slotStart32 width k) width [.item k]] := by
    intro k hk
    obtain ⟨n, hn, hle⟩ := exists_of_lt_copied hk
    subst hn
    have hfills : ((counted m f.site.field (.list (some n)) count width).round depth k).fills
        f.site.field = true := by
      simp [Outlook.fills, Outlook.round, counted, Outlook.start]
    exact t.storeInSlot_accesses e f hfills
      (sequenceOffset_liesAt depth f.site.field _ count width k)
      (item_madeFrom f depth hle count width)
  have helements := accesses_elements f depth hround
  rw [← List.map_eq_flatMap] at helements
  rw [t.accesses_afterNumbers e f depth maxBound items hitems hbound]
  exact accesses_block f helements

/-- The list that is put into the property first. -/
theorem accesses_fresh {stored : Option Int} (hbound : maxBound ≤ 2147483647) :
    (Stmt.assign f.value (listAllocation e.valueType maxBound)).accesses?
      (.start m f.site.field (.block stored)) =
        some ([.fresh], .start m f.site.field (.block stored)) := by
  have hmax : InInt32 maxBound := ⟨by omega, by omega⟩
  unfold listAllocation
  split <;>
    simp [Stmt.accesses?, Stmt.leafAccesses?, FieldView.value, allLoads?, Expr.loads?, Expr.amount?,
      Outlook.builds, Outlook.start, hmax]

/-- A list that is made of a block. -/
theorem sequenceFromNative_accesses (stored : Nat) (hbound : maxBound ≤ 2147483647) :
    bodyAccesses? (t.sequenceFromNative depth f e maxBound (listAllocation e.valueType maxBound))
      (.start m f.site.field (.block (some stored))) =
        some (reading32 ((t.slot e).width m) (cutTo maxBound stored)) := by
  let count := cutTo maxBound stored
  let width := (t.slot e).width m
  have hround : ∀ k < count, bodyAccesses?
      (t.loadFromSlot e f.native (sequenceOffset (counter depth)) fun staged =>
        .run (.invoke f.value .add [staged]))
      ((counted m f.site.field (.block (some stored)) count width).round depth k) =
        some [.load (slotStart32 width k) width, .append [.slot (slotStart32 width k) width]] :=
    fun k _ => t.loadFromSlot_accesses e f rfl rfl
      (sequenceOffset_liesAt depth f.site.field _ count width k)
  have helements := accesses_elements f depth hround
  have hzero : InInt32 0 := by decide
  have hstored : (Expr.call (.read .int32) [f.native, .nat 0]).amount?
      (.start m f.site.field (.block (some stored))) = some (stored : Int) := by
    simp [Expr.amount?, FieldView.native, Outlook.start, Outlook.stored?, hzero]
  have hloads : (Expr.call (.read .int32) [f.native, .nat 0]).loads?
      (.start m f.site.field (.block (some stored))) = some [.load 0 4] := by
    simp [Expr.loads?, Expr.source?, FieldView.native, Outlook.start, Expr.amount?, hzero,
      Machine.wordWidth]
  have hall := (t.accesses_numbers e f (loads_bounded maxBound hloads)
    (amount_bounded hbound hstored) _).trans (congrArg _ helements)
  have hhandle : (Outlook.start m f.site.field (.block (some stored))).holds?
      (isHandle f.native) = some true := by
    simp [Outlook.holds?, isHandle, FieldView.native, Outlook.start]
  exact bodyAccesses_cons (accesses_fresh e f maxBound hbound) (bodyAccesses_when hhandle hall)

/-- A null handle is not read. -/
theorem sequenceFromNative_accesses_null (hbound : maxBound ≤ 2147483647) :
    bodyAccesses? (t.sequenceFromNative depth f e maxBound (listAllocation e.valueType maxBound))
      (.start m f.site.field (.block none)) = some [.fresh] := by
  have hnull : (Outlook.start m f.site.field (.block none)).holds? (isHandle f.native) =
      some false := by
    simp [Outlook.holds?, isHandle, FieldView.native, Outlook.start]
  exact bodyAccesses_cons (accesses_fresh e f maxBound hbound) (bodyAccesses_unless hnull _)

end Target

end

/-- **Buffers of sequences.** Let a field of sequence type be accepted, its bound a number of 32
signed bits, and let the list be null or of any length that a list has. `ToNative` allocates one block
and stores the number of copied elements at its start: zero for null, and otherwise the length, cut to
the bound if there is one. Behind that it stores these elements, each once and in a slot of the size
that the code computes. `FromNative` starts from an empty list; it loads the number and as many slots
as that, cut to the bound, and adds their elements in order. A null handle leaves the list empty.

The size of the block and the places of the slots are computed in 32 bits. If the size fits, they are
exact, all is stored inside of the block, and the stores do not overlap. If it does not, something is
stored outside of the block. -/
theorem sequence_buffers (m : Machine) (t : Target) (depth : Nat) {f : FieldView} {element : Shape}
    {maxBound : Nat} (hshape : f.shape = .sequence element maxBound)
    (haccepted : (t.toNative depth f).Finishes) (hbound : maxBound ≤ 2147483647) :
    ∃ e : Element, element = e.shape ∧
      let start := Outlook.start m f.site.field
      let width := (t.slot e).width m
      (∀ given, (t.slot e).size.amount? (start given) = some (width : Int)) ∧
      (∀ items, (∀ n ∈ items, n ≤ 2147483647) →
        let count := copied maxBound items
        let stores := (filling32 width count).flatMap Access.stores
        bodyAccesses? (t.toNative depth f).stmts (start (.list items)) =
          some (filling32 width count) ∧
        (4 + count * width ≤ 2147483647 → filling32 width count = filling width count ∧
          (∀ s ∈ stores, 0 ≤ s.1 ∧ s.1 + (s.2 : Int) ≤ ((4 + count * width : Nat) : Int)) ∧
          stores.Pairwise (fun a b => a.1 + (a.2 : Int) ≤ b.1)) ∧
        (2147483647 < 4 + count * width →
          ∃ s ∈ stores, slotStart32 width count < s.1 + (s.2 : Int))) ∧
      (t.fromNative depth f).Finishes ∧
      (∀ stored : Nat,
        let count := cutTo maxBound stored
        bodyAccesses? (t.fromNative depth f).stmts (start (.block (some stored))) =
          some (reading32 width count) ∧
        (4 + count * width ≤ 2147483647 → reading32 width count = reading width count)) ∧
      bodyAccesses? (t.fromNative depth f).stmts (start (.block none)) = some [.fresh] := by
  have htransferable := (t.toNative_finishes_iff depth f).mp haccepted
  obtain ⟨e, rfl, bridges⟩ : ∃ e : Element, element = e.shape ∧ t.layout.Bridges e := by
    rwa [hshape] at htransferable
  rw [t.toNative_sequence depth f e maxBound hshape bridges,
    t.fromNative_sequence depth f e maxBound hshape bridges]
  refine ⟨e, rfl, fun given => amount_slotSize t e, fun items hitems => ⟨?_, fun hfits => ?_, ?_⟩,
    (t.fromNative_finishes_iff depth f).mpr htransferable, fun stored => ⟨?_, reading32_eq⟩, ?_⟩
  · exact t.sequenceToNative_accesses e f depth maxBound items hitems hbound
  · have hexact := filling32_eq hfits
    refine ⟨hexact, ?_, ?_⟩
    · rw [hexact]
      exact filling_inside _ _
    · rw [hexact]
      exact filling_apart _ _
  · exact filling32_outside (slot_width_pos m t e)
  · exact t.sequenceFromNative_accesses e f depth maxBound stored hbound
  · exact t.sequenceFromNative_accesses_null e f depth maxBound hbound

namespace Depot

def crate : StructType :=
  ⟨.ofSegments ["Depot", "Crate"], [⟨"mass", .primitive .f64⟩, ⟨"label", .wideString⟩], none⟩

/-- A field of at most three structs. -/
def crates : FieldView := .of "Depot::Shelf" ⟨"crates", .sequence (.struct crate) 3⟩

def target : Target := ⟨.jagged, .windows, "Wrapper"⟩

end Depot

/-- Of five structs of sixteen bytes three are copied. Three of ten that a block announces are
read. -/
theorem depot_buffers :
    (Depot.target.toNative 0 Depot.crates).Finishes ∧
    bodyAccesses? (Depot.target.toNative 0 Depot.crates).stmts
        (.start Radar.machine "crates" (.list (some 5))) =
      some [.reserve 52, .store 0 4 [.number 3], .store 4 16 [.item 0], .store 20 16 [.item 1],
        .store 36 16 [.item 2]] ∧
    bodyAccesses? (Depot.target.fromNative 0 Depot.crates).stmts
        (.start Radar.machine "crates" (.block (some 10))) =
      some [.fresh, .load 0 4, .load 4 16, .append [.slot 4 16], .load 20 16, .append [.slot 20 16],
        .load 36 16, .append [.slot 36 16]] := by
  have hfinishes : (Depot.target.toNative 0 Depot.crates).Finishes := ⟨(), rfl⟩
  obtain ⟨e, helement, _, hto, _, hfrom, _⟩ := sequence_buffers Radar.machine Depot.target 0
    (f := Depot.crates) rfl hfinishes (by decide)
  have he : e = .struct Depot.crate := Element.shape_injective helement.symm
  subst he
  obtain ⟨hstores, hexact, _⟩ := hto (some 5) (by simp)
  obtain ⟨hloads, hsame⟩ := hfrom 10
  refine ⟨hfinishes, hstores.trans (congrArg some (hexact (by decide)).1),
    hloads.trans (congrArg some (hsame (by decide)))⟩

/-- The size of a block is not checked. Here it is 4 bytes for 65536 structs, and the first of them is
written behind it. -/
theorem strip_outside :
    (Atlas.target.toNative 0 Atlas.strip).Finishes ∧
      Atlas.strip.shape = .sequence (.struct Atlas.tile) 0 ∧
      ∃ accesses, bodyAccesses? (Atlas.target.toNative 0 Atlas.strip).stmts
          (.start Atlas.machine "strip" (.list (some 65536))) = some accesses ∧
        .reserve 4 ∈ accesses ∧ .store 4 65536 [.item 0] ∈ accesses := by
  have haccesses := Atlas.target.sequenceToNative_accesses (m := Atlas.machine)
    (.struct Atlas.tile) Atlas.strip 0 0 (some 65536) (by simp) (by decide)
  have hbytes : slotStart32 65536 65536 = 4 := by decide
  have hfirst : slotStart32 65536 0 = 4 := by decide
  refine ⟨⟨(), rfl⟩, rfl, filling32 65536 65536, haccesses, ?_, ?_⟩
  · rw [filling32, hbytes]
    exact List.mem_cons_self
  · refine List.mem_cons_of_mem _ (List.mem_cons_of_mem _ (List.mem_map.mpr ⟨0, ?_, ?_⟩))
    · exact List.mem_range.mpr (by decide)
    · rw [hfirst]
      rfl

end InteropGen

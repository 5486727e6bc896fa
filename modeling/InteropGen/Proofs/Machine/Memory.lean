import InteropGen.Proofs.Machine.Value

/-!
# Native memory

What generated code asks of native memory: blocks that are fresh, not null and apart from each
other; a value that is read back where it was written as what it was written; a string that is read
back from the handle it was given.

* A buffer holds cells. A store removes every cell that it overlaps, and a load finds only a cell
  that starts at its address and was stored by the matching function.
* Blocks are numbered in the order of allocation and no number is used twice, so that the blocks of
  a stretch of execution are those from one value of `next` up to another.
* `freed` lists the blocks that were given back. Only a block that is there can be freed, so that
  freeing twice has no result.
-/

set_option autoImplicit false

namespace InteropGen.CSharp

/-- By which pair of functions a cell is stored and loaded. -/
inductive CellKind where
  | word (word : Word)
  /-- A transfer struct of the type at a path. -/
  | structure (path : String)
  deriving DecidableEq, Repr

/-- What one store leaves in a buffer. -/
structure Cell where
  kind : CellKind
  width : Int
  value : Value

/-- A block of native memory. -/
inductive Block where
  /-- Memory by the byte, with the cells that it holds by their offsets. -/
  | buffer (size : Int) (cells : Int → Option Cell)
  /-- A copy of a string. -/
  | text (encoding : Encoding) (units : List (BitVec 16))

/-- Native memory. -/
structure Memory where
  blocks : Nat → Option Block
  /-- The number of the next block. -/
  next : Nat
  /-- The blocks that were freed, in order. -/
  freed : List Nat

/-- The cells of a buffer after a store. -/
def writeCell (cells : Int → Option Cell) (at_ : Int) (cell : Cell) : Int → Option Cell :=
  fun o =>
    if o = at_ then some cell
    else (cells o).filter fun c => o + c.width ≤ at_ ∨ at_ + cell.width ≤ o

theorem writeCell_same (cells : Int → Option Cell) (o : Int) (cell : Cell) :
    writeCell cells o cell o = some cell :=
  if_pos rfl

theorem writeCell_apart (cells : Int → Option Cell) (o o' : Int) (cell c : Cell)
    (hne : o' ≠ o) (hc : cells o' = some c)
    (apart : o' + c.width ≤ o ∨ o + cell.width ≤ o') : writeCell cells o cell o' = some c := by
  unfold writeCell
  rw [if_neg hne, hc, Option.filter_some, if_pos (by simpa using apart)]

namespace Memory

/-- The memory with one more block, and the address of its start. -/
def alloc (block : Block) (mem : Memory) : Address × Memory :=
  (⟨mem.next, 0⟩,
    { mem with
      blocks := Function.update mem.blocks mem.next (some block)
      next := mem.next + 1 })

/-- The memory after a block is given back, by the address of its start. -/
def free? (a : Address) (mem : Memory) : Option Memory :=
  if a.offset = 0 ∧ (mem.blocks a.block).isSome then
    some { mem with
      blocks := Function.update mem.blocks a.block none
      freed := mem.freed ++ [a.block] }
  else none

/-- The cell at an address. -/
def cell? (a : Address) (mem : Memory) : Option Cell :=
  match mem.blocks a.block with
  | some (.buffer _ cells) => cells a.offset
  | _ => none

/-- The memory with a cell stored at an address, if it lies inside a buffer. -/
def store? (a : Address) (cell : Cell) (mem : Memory) : Option Memory :=
  match mem.blocks a.block with
  | some (.buffer size cells) =>
    if 0 ≤ a.offset ∧ a.offset + cell.width ≤ size then
      some { mem with
        blocks :=
          Function.update mem.blocks a.block (some (.buffer size (writeCell cells a.offset cell))) }
    else none
  | _ => none

/-- The value at an address, if it was stored as a cell of the kind. -/
def load? (a : Address) (kind : CellKind) (mem : Memory) : Option Value := do
  let cell ← mem.cell? a
  if cell.kind = kind then some cell.value else none

/-- The string that a handle was given for. -/
def text? (a : Address) (encoding : Encoding) (mem : Memory) : Option (List (BitVec 16)) :=
  match mem.blocks a.block with
  | some (.text e units) => if a.offset = 0 ∧ e = encoding then some units else none
  | _ => none

variable (mem : Memory)

theorem load?_of_cell? (a : Address) (cell : Cell) (h : mem.cell? a = some cell) :
    mem.load? a cell.kind = some cell.value := by
  unfold load?
  rw [h]
  exact if_pos rfl

/-- The blocks with numbers from `lo` up to `hi` are the same. -/
def AgreesOn (lo hi : Nat) (mem' : Memory) : Prop :=
  ∀ b, lo ≤ b → b < hi → mem'.blocks b = mem.blocks b

theorem AgreesOn.cell? {mem mem' : Memory} {lo hi : Nat} (h : mem.AgreesOn lo hi mem')
    (a : Address) (hlo : lo ≤ a.block) (hhi : a.block < hi) : mem'.cell? a = mem.cell? a := by
  unfold Memory.cell?
  rw [h a.block hlo hhi]

/-- Nothing that was there is changed, freed or lost, and every new block is there. -/
structure Extends (mem' : Memory) : Prop where
  same : mem.AgreesOn 0 mem.next mem'
  next_le : mem.next ≤ mem'.next
  freed : mem'.freed = mem.freed
  live : ∀ b, mem.next ≤ b → b < mem'.next → (mem'.blocks b).isSome

theorem Extends.refl : mem.Extends mem :=
  ⟨fun _ _ _ => rfl, Nat.le_refl _, rfl, fun b hlo hhi => by omega⟩

theorem Extends.trans {mem mem' mem'' : Memory} (h : mem.Extends mem') (h' : mem'.Extends mem'') :
    mem.Extends mem'' where
  same := by
    intro b hlo hhi
    have hle := h.next_le
    rw [h'.same b hlo (by omega), h.same b hlo hhi]
  next_le := Nat.le_trans h.next_le h'.next_le
  freed := h'.freed.trans h.freed
  live := by
    intro b hlo hhi
    by_cases hold : b < mem'.next
    · rw [h'.same b (Nat.zero_le b) hold]
      exact h.live b hlo hold
    · exact h'.live b (by omega) hhi

theorem alloc_address (block : Block) : (mem.alloc block).1 = ⟨mem.next, 0⟩ := rfl

@[simp] theorem alloc_next (block : Block) : (mem.alloc block).2.next = mem.next + 1 := rfl

@[simp] theorem alloc_blocks_next (block : Block) :
    (mem.alloc block).2.blocks mem.next = some block := by
  simp [alloc]

theorem extends_alloc (block : Block) : mem.Extends (mem.alloc block).2 where
  same := by
    intro b _ hb
    simp only [alloc]
    rw [Function.update_of_ne (by omega)]
  next_le := by simp
  freed := rfl
  live := by
    intro b hlo hhi
    rw [alloc_next] at hhi
    have hb : b = mem.next := by omega
    subst hb
    simp

/-- A store into a buffer that has room for the cell. -/
theorem store?_eq (a : Address) (cell : Cell) (size : Int) (cells : Int → Option Cell)
    (hblock : mem.blocks a.block = some (.buffer size cells)) (hlow : 0 ≤ a.offset)
    (hhigh : a.offset + cell.width ≤ size) :
    mem.store? a cell = some { mem with
      blocks := Function.update mem.blocks a.block
        (some (.buffer size (writeCell cells a.offset cell))) } := by
  simp [store?, hblock, hlow, hhigh]

variable {mem}

/-- A store into a buffer that has a result has found room there. -/
theorem room_of_store? {mem' : Memory} {a : Address} {cell : Cell} {size : Int}
    {cells : Int → Option Cell} (hblock : mem.blocks a.block = some (.buffer size cells))
    (h : mem.store? a cell = some mem') : 0 ≤ a.offset ∧ a.offset + cell.width ≤ size := by
  simp only [store?, hblock, Option.ite_none_right_eq_some] at h
  exact h.1

end Memory

end InteropGen.CSharp

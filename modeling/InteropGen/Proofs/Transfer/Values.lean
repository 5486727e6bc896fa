import InteropGen.Proofs.Bodies
import InteropGen.Proofs.Machine.Fill

/-!
# Values of a shape, on both sides

Which values a property of a given shape can hold, what becomes of them in a transfer struct, and
how native memory holds what does not fit into one.

* `Typed` — well-formed values whose buffers have sizes of 32 bits. With `strict` only those that a
  round trip keeps: no null strings or sequences, no sequence above its bound, no long doubles, and
  narrow characters of one byte.
* `Represents` — a field of a transfer struct stands for a value, by means of the native blocks in a
  range of numbers; a memory that agrees on that range will do as well (`Represents.mono`).
* `Storage` — what a transfer struct is before it is converted to: nested structs are in place.
-/

set_option autoImplicit false

namespace InteropGen

open CSharp

/-- The values of a predefined type. -/
inductive CSharp.Builtin.Holds : Builtin → Value → Prop
  | integer (b : Builtin) (least size n : Int) (hrange : b.range? = some (least, size))
      (hlow : least ≤ n) (hhigh : n < least + size) : Holds b (.int n)
  | float (bits : BitVec 32) : Holds .float (.single bits)
  | double (bits : BitVec 64) : Holds .double (.double bits)
  | decimal (q : Rat) : Holds .decimal (.decimal q)
  | bool (b : Bool) : Holds .bool (.bool b)
  | char (code : BitVec 16) : Holds .char (.char code)

/-- A value that comes back from native memory as it was: not a long double, and if it is a narrow
character, one of a single byte. -/
def PrimitiveKind.Keeps (kind : PrimitiveKind) (v : Value) : Prop :=
  kind ≠ .longdouble ∧ (kind = .char → ∀ code, v = .char code → code.toNat < 256)

/-- The element as a transfer struct holds it, a primitive. -/
def Platform.carried (m : Machine) (platform : Platform) (kind : PrimitiveKind) (v : Value) :
    Value :=
  match kind, v with
  | .longdouble, .decimal q => .double (m.narrow q)
  | .wchar, .char code => if platform.widensChars then .int code.toNat else .char code
  | _, v => v

/-- The integer that a slot stores for a value. -/
def SlotCoding.stored (m : Machine) : SlotCoding → Value → Value
  | .plain, v => v
  | .reinterpret stored _, .int n =>
    match stored.range? with
    | some (least, size) => .int (wrapTo least size n)
    | none => .null
  | .singleBits, .single bits => .int bits.toInt
  | .doubleBits, .double bits => .int bits.toInt
  | .narrowedBits, .decimal q => .int (m.narrow q).toInt
  | .truth, .bool b => .int (if b then 1 else 0)
  | .casts stored _, v => (m.cast? stored v).getD .null
  | _, _ => .null

namespace Slot

/-- The bytes of a slot. -/
def width (m : Machine) : Slot → Nat
  | integer _ word _ => m.wordWidth word
  | transferStruct (.named path) => m.structSize path
  | transferStruct _ => 0

/-- The cell that a slot leaves in memory for what it stores. -/
def cell (m : Machine) (slot : Slot) (stored : Value) : Cell :=
  match slot with
  | integer _ word _ => ⟨.word word, slot.width m, stored⟩
  | transferStruct (.named path) => ⟨.structure path, slot.width m, stored⟩
  | transferStruct _ => ⟨.structure "", slot.width m, stored⟩

@[simp] theorem cell_width (m : Machine) (slot : Slot) (stored : Value) :
    (slot.cell m stored).width = slot.width m := by
  cases slot with
  | integer size word coding => rfl
  | transferStruct type => cases type <;> rfl

end Slot

/-- What a slot stores for the value that it is handed. -/
def Slot.stored (m : Machine) (slot : Slot) (x : Value) : Value :=
  match slot with
  | integer _ _ coding => coding.stored m x
  | transferStruct _ => x

/-- What is handed to the slot of an element: the value itself, or what a transfer struct would hold
for it. -/
def Element.staged (e : Element) (v native : Value) : Value :=
  match e with
  | .primitive _ | .enum _ => v
  | .string _ | .struct _ => native

/-- The cell of an element. -/
def Target.cell (m : Machine) (t : Target) (e : Element) (v native : Value) : Cell :=
  (t.slot e).cell m ((t.slot e).stored m (e.staged v native))

/-- How many elements of a sequence are converted. -/
def cutTo (maxBound count : Nat) : Nat :=
  if maxBound = 0 then count else min count maxBound

theorem cutTo_le (maxBound count : Nat) : cutTo maxBound count ≤ count := by
  unfold cutTo
  split
  · exact Nat.le_refl count
  · exact Nat.min_le_left count maxBound

theorem cutTo_zero (maxBound : Nat) : cutTo maxBound 0 = 0 :=
  Nat.le_zero.mp (cutTo_le maxBound 0)

/-- Nothing is cut off from what is within the bound. -/
theorem cutTo_eq_self {maxBound count : Nat} (h : maxBound = 0 ∨ count ≤ maxBound) :
    cutTo maxBound count = count := by
  unfold cutTo
  rcases h with hzero | hle
  · rw [if_pos hzero]
  · rw [Nat.min_eq_left hle, ite_self]

section
variable (m : Machine) (t : Target)

/-- The well-formed values of a shape. Sizes of native buffers are computed in 32 bits and have to
fit there. -/
inductive Typed (strict : Bool) : Shape → Value → Prop
  | primitive (kind : PrimitiveKind) (v : Value) (holds : kind.valueType.Holds v)
      (keeps : strict = true → kind.Keeps v) : Typed strict (.primitive kind) v
  | text (kind : StringKind) (units : List (BitVec 16)) : Typed strict (.string kind) (.text units)
  | nullText (kind : StringKind) (hstrict : strict = false) : Typed strict (.string kind) .null
  | enum (e : EnumType) (n : Int) (hn : InInt32 n) :
      Typed strict (.enum e) (.member e.name.dotted n)
  | struct (s : StructType) (fields : String → Value)
      (hfields : ∀ f ∈ s.fields, Typed strict f.type.shape (fields f.name))
      (hothers : ∀ name, name ∉ s.fields.map (·.name) → fields name = .null) :
      Typed strict (.struct s) (.record s.name.dotted fields)
  | array (e : Element) (dims : List Nat) (f : List Nat → Value) (valid : ValidDims dims)
      (hfits : ∀ length, e.transfer dims = .outOfLine length →
        (t.slot e).width m * length ≤ 2147483647)
      (helements : ∀ idx, InBounds dims idx → Typed strict e.shape (f idx)) :
      Typed strict (.array e.shape dims) (t.layout.arrayValue dims f)
  | list (e : Element) (maxBound : Nat) (items : List Value)
      (hitems : ∀ v ∈ items, Typed strict e.shape v)
      (hbound : strict = true → maxBound = 0 ∨ items.length ≤ maxBound)
      (hcount : items.length ≤ 2147483647)
      (hfits : 4 + cutTo maxBound items.length * (t.slot e).width m ≤ 2147483647) :
      Typed strict (.sequence e.shape maxBound) (.list items)
  | nullList (e : Element) (maxBound : Nat) (hstrict : strict = false) :
      Typed strict (.sequence e.shape maxBound) .null

/-- What a transfer struct is before a conversion: every nested struct is there, and so are those
nested in it. -/
inductive Storage : Shape → Value → Prop
  | struct (s : StructType) (fields : String → Value)
      (hfields : ∀ f ∈ s.fields, Storage f.type.shape (fields f.name)) :
      Storage (.struct s) (.record (s.name.dotted ++ t.transferSuffix) fields)
  | other (shape : Shape) (v : Value) (hshape : ∀ s, shape ≠ .struct s) : Storage shape v

/-- The last argument, a field of a transfer struct or of a slot, stands for the value before it.
Everything native that belongs to it lies in blocks numbered from `lo` up to `hi`. -/
inductive Represents (mem : Memory) (lo hi : Nat) : Shape → Value → Value → Prop
  | primitive (kind : PrimitiveKind) (v : Value) :
      Represents mem lo hi (.primitive kind) v (t.platform.carried m kind v)
  | text (kind : StringKind) (v : Value) (units : List (BitVec 16)) (b : Nat)
      (hv : v = .text units ∨ v = .null ∧ units = []) (hlo : lo ≤ b) (hhi : b < hi)
      (hblock : mem.blocks b = some (.text (t.platform.encoding kind) units)) :
      Represents mem lo hi (.string kind) v (.handle (some ⟨b, 0⟩))
  | enum (e : EnumType) (n : Int) :
      Represents mem lo hi (.enum e) (.member e.name.dotted n)
        (.member (e.name.dotted ++ t.transferSuffix) n)
  | struct (s : StructType) (fields natives : String → Value)
      (hfields : ∀ f ∈ s.fields,
        Represents mem lo hi f.type.shape (fields f.name) (natives f.name)) :
      Represents mem lo hi (.struct s) (.record s.name.dotted fields)
        (.record (s.name.dotted ++ t.transferSuffix) natives)
  | inline (e : Element) (dims : List Nat) (length : Nat) (f : List Nat → Value)
      (natives : List Value) (htransfer : e.transfer dims = .inline length)
      (hlength : natives.length = dims.prod)
      (helements : ∀ idx native, InBounds dims idx → natives[flat dims idx]? = some native →
        Represents mem lo hi e.shape (f idx) native) :
      Represents mem lo hi (.array e.shape dims) (t.layout.arrayValue dims f) (.array 1 natives)
  | outOfLine (e : Element) (dims : List Nat) (length : Nat) (f : List Nat → Value)
      (natives : List Value) (b : Nat) (htransfer : e.transfer dims = .outOfLine length)
      (hlo : lo ≤ b) (hhi : b < hi) (hlength : natives.length = dims.prod)
      (hcells : ∀ idx native, InBounds dims idx → natives[flat dims idx]? = some native →
        mem.cell? ⟨b, (flat dims idx * (t.slot e).width m : Nat)⟩ =
          some (t.cell m e (f idx) native))
      (helements : ∀ idx native, InBounds dims idx → natives[flat dims idx]? = some native →
        Represents mem lo hi e.shape (f idx) native) :
      Represents mem lo hi (.array e.shape dims) (t.layout.arrayValue dims f)
        (.handle (some ⟨b, 0⟩))
  | sequence (e : Element) (maxBound : Nat) (v : Value) (items natives : List Value) (b : Nat)
      (hv : v = .list items ∨ v = .null ∧ items = []) (hlo : lo ≤ b) (hhi : b < hi)
      (hlength : natives.length = cutTo maxBound items.length)
      (hcount : mem.cell? ⟨b, 0⟩ = some ⟨.word .int32, 4, .int natives.length⟩)
      (hcells : ∀ (k : Nat) item native, items[k]? = some item → natives[k]? = some native →
        mem.cell? ⟨b, (4 + k * (t.slot e).width m : Nat)⟩ = some (t.cell m e item native))
      (helements : ∀ (k : Nat) item native, items[k]? = some item → natives[k]? = some native →
        Represents mem lo hi e.shape item native) :
      Represents mem lo hi (.sequence e.shape maxBound) v (.handle (some ⟨b, 0⟩))

variable {m t}

theorem Represents.mono {mem mem' : Memory} {lo lo' hi hi' : Nat} {shape : Shape} {v native : Value}
    (h : Represents m t mem lo hi shape v native) (hlo : lo' ≤ lo) (hhi : hi ≤ hi')
    (hagrees : mem.AgreesOn lo hi mem') : Represents m t mem' lo' hi' shape v native := by
  induction h with
  | primitive kind v => exact .primitive kind v
  | text kind v units b hv hb hb' hblock =>
    exact .text kind v units b hv (by omega) (by omega) ((hagrees b hb hb').trans hblock)
  | enum e n => exact .enum e n
  | struct s fields natives _ ih => exact .struct s fields natives ih
  | inline e dims length f natives htransfer hlength _ ih =>
    exact .inline e dims length f natives htransfer hlength ih
  | outOfLine e dims length f natives b htransfer hb hb' hlength hcells _ ih =>
    refine .outOfLine e dims length f natives b htransfer (by omega) (by omega) hlength ?_ ih
    intro idx native hidx hnative
    exact (hagrees.cell? _ hb hb').trans (hcells idx native hidx hnative)
  | sequence e maxBound v items natives b hv hb hb' hlength hcount hcells _ ih =>
    refine .sequence e maxBound v items natives b hv (by omega) (by omega) hlength
      ((hagrees.cell? _ hb hb').trans hcount) ?_ ih
    intro k item native hitem hnative
    exact (hagrees.cell? _ hb hb').trans (hcells k item native hitem hnative)

/-- Whatever is allocated later, what stands for a value goes on to do so. -/
theorem Represents.extend {mem mem' : Memory} {lo : Nat} {shape : Shape} {v native : Value}
    (h : Represents m t mem lo mem.next shape v native) (hextends : mem.Extends mem') :
    Represents m t mem' lo mem'.next shape v native :=
  h.mono (Nat.le_refl lo) hextends.next_le fun b _ hb => hextends.same b (Nat.zero_le b) hb

end

end InteropGen

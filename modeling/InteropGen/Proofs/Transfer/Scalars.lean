import InteropGen.Proofs.Transfer.Values

/-!
# Scalars across the boundary

The conversions of primitives and enums: what the expressions evaluate to on the way to a transfer
struct or to a slot, and that the way back undoes them on values that a round trip keeps.

* `eval_primitiveToTransfer`, `eval_primitiveFromTransfer` — fields and inline arrays;
* `Word.range_of_integer?` — what a word of a slot holds;
* `SlotCoding.Stores`, `SlotCoding.Restores` — slots, for one value;
* `primitiveSlot_stores`, `primitiveSlot_restores` — every primitive on every platform.
-/

set_option autoImplicit false

namespace InteropGen

open CSharp

theorem char_ofInt (code : BitVec 16) (n : Int) (h : n % 65536 = code.toNat) :
    BitVec.ofInt 16 n = code := by
  apply BitVec.eq_of_toNat_eq
  rw [BitVec.toNat_ofInt]
  have hpow : ((2 ^ 16 : Nat) : Int) = 65536 := rfl
  rw [hpow, h]
  exact Int.toNat_natCast _

theorem wrapTo_natCast (least size : Int) (code : BitVec 16) (hlow : least ≤ 0)
    (hhigh : 65536 ≤ least + size) : wrapTo least size code.toNat = code.toNat := by
  have hcode := code.isLt
  apply wrapTo_eq_self <;> omega

/-- The integer type whose values a word holds. -/
def CSharp.Word.integer? : Word → Option Builtin
  | byte => some .byte
  | int16 => some .short
  | int32 => some .int
  | int64 => some .long
  | intPtr => none

/-- A word holds every integer of its type. -/
theorem CSharp.Word.range_of_integer? {word : Word} {b : Builtin} (h : word.integer? = some b) :
    ∃ least size, b.range? = some (least, size) ∧ 0 < size ∧
      ∀ n, least ≤ n → n < least + size → Machine.wordHolds word (.int n) = true := by
  cases word <;> cases h <;> refine ⟨_, _, rfl, by decide, ?_⟩ <;> intro n hlow hhigh <;>
    simp only [Machine.wordHolds, decide_eq_true_eq] <;> omega

/-- The bounds of a value of an integer type. -/
theorem holds_integer {b : Builtin} {v : Value} {least size : Int}
    (hrange : b.range? = some (least, size)) (holds : b.Holds v) :
    ∃ n, v = .int n ∧ least ≤ n ∧ n < least + size := by
  cases holds with
  | integer _ _ _ n hrange' hlow hhigh =>
    rw [hrange] at hrange'
    cases hrange'
    exact ⟨n, rfl, hlow, hhigh⟩
  | _ => cases hrange

section
variable (m : Machine) (lib : Library)

theorem eval_primitiveToTransfer (platform : Platform) (kind : PrimitiveKind) (v : Value)
    (holds : kind.valueType.Holds v) (env : Env) (x : Expr) (st st' : State)
    (hx : x.eval m lib env st = some (v, st')) :
    (platform.primitiveToTransfer kind x).eval m lib env st =
      some (platform.carried m kind v, st') := by
  cases kind with
  | longdouble =>
    cases holds with
    | integer _ _ _ _ hrange => cases hrange
    | decimal q =>
      simp [Platform.primitiveToTransfer, Platform.carried, Expr.eval, hx, Machine.cast?]
  | wchar =>
    cases holds with
    | integer _ _ _ _ hrange => cases hrange
    | char code =>
      cases platform with
      | windows => simpa [Platform.primitiveToTransfer, Platform.carried, Platform.widensChars]
      | linux =>
        have hwrap := wrapTo_natCast 0 4294967296 code (by omega) (by omega)
        simp [Platform.primitiveToTransfer, Platform.carried, Platform.widensChars, Expr.eval, hx,
          Machine.cast?, Builtin.range?, Machine.ordinal?, hwrap]
  | _ => exact hx

theorem eval_primitiveFromTransfer (platform : Platform) (kind : PrimitiveKind) (v : Value)
    (holds : kind.valueType.Holds v) (keeps : kind.Keeps v) (env : Env) (x : Expr) (st st' : State)
    (hx : x.eval m lib env st = some (platform.carried m kind v, st')) :
    (platform.primitiveFromTransfer kind x).eval m lib env st = some (v, st') := by
  cases kind with
  | longdouble => exact absurd rfl keeps.1
  | wchar =>
    cases holds with
    | integer _ _ _ _ hrange => cases hrange
    | char code =>
      cases platform with
      | windows => simpa [Platform.primitiveFromTransfer, Platform.carried, Platform.widensChars] using hx
      | linux =>
        have hback : BitVec.ofInt 16 (code.toNat : Int) = code := by
          apply char_ofInt
          have hcode := code.isLt
          omega
        simp only [Platform.carried, Platform.widensChars, if_true] at hx
        simp [Platform.primitiveFromTransfer, Platform.widensChars, Expr.eval, hx, Machine.cast?,
          Machine.ordinal?, hback]
  | _ => exact hx

/-- Elements that have one type on both sides are represented by themselves. -/
theorem carried_of_copiesDirectly (platform : Platform) (kind : PrimitiveKind)
    (h : platform.isDirect kind = true) (v : Value) : platform.carried m kind v = v := by
  cases kind with
  | longdouble => cases platform <;> cases h
  | wchar =>
    cases platform with
    | linux => cases h
    | windows => cases v <;> rfl
  | _ => cases v <;> rfl

/-- The arrays that are copied in one go. -/
theorem copied_cases {platform : Platform} {e : Element} {dims : List Nat} (valid : ValidDims dims)
    (h : (!multiDimensional dims && platform.copiesDirectly e) = true) :
    ∃ d kind, dims = [d] ∧ e = .primitive kind ∧ platform.isDirect kind = true := by
  rw [Bool.and_eq_true, Bool.not_eq_true'] at h
  obtain ⟨hsingle, hdirect⟩ := h
  obtain ⟨d, rfl⟩ := valid.eq_singleton hsingle
  cases e with
  | primitive kind => exact ⟨d, kind, rfl, rfl, hdirect⟩
  | _ => cases hdirect

/-- The coding turns the value into an integer that the word can hold. -/
structure SlotCoding.Stores (coding : SlotCoding) (word : Word) (v : Value) : Prop where
  fits : Machine.wordHolds word (coding.stored m v) = true
  eval : ∀ env x st st', x.eval m lib env st = some (v, st') →
    (coding.encode x).eval m lib env st = some (coding.stored m v, st')

/-- The coding turns that integer back into the value. -/
def SlotCoding.Restores (coding : SlotCoding) (v : Value) : Prop :=
  ∀ env x st st', x.eval m lib env st = some (coding.stored m v, st') →
    (coding.decode x).eval m lib env st = some (v, st')

attribute [local simp] SlotCoding.encode SlotCoding.decode SlotCoding.stored Expr.eval
  Machine.call? Builtin.range? Machine.ordinal?

theorem plain_stores (word : Word) (v : Value) (h : Machine.wordHolds word v = true) :
    SlotCoding.plain.Stores m lib word v :=
  ⟨h, fun _ _ _ _ hx => hx⟩

theorem plain_restores (v : Value) : SlotCoding.plain.Restores m lib v :=
  fun _ _ _ _ hx => hx

/-- Integers of the type that the memory functions take. -/
theorem integer_stores {word : Word} {stored : Builtin} (hword : word.integer? = some stored)
    {v : Value} (holds : stored.Holds v) : SlotCoding.plain.Stores m lib word v := by
  obtain ⟨least, size, hrange, _, hholds⟩ := Word.range_of_integer? hword
  obtain ⟨n, rfl, hlow, hhigh⟩ := holds_integer hrange holds
  exact plain_stores m lib word _ (hholds n hlow hhigh)

/-- Integers whose signedness the memory functions do not take. -/
theorem reinterpret_stores {word : Word} {stored : Builtin} (hword : word.integer? = some stored)
    (value : Builtin) (n : Int) :
    (SlotCoding.reinterpret stored value).Stores m lib word (.int n) := by
  obtain ⟨least, size, hrange, hsize, hholds⟩ := Word.range_of_integer? hword
  constructor
  · obtain ⟨hlow, hhigh⟩ := wrapTo_bounds least n hsize
    simp only [SlotCoding.stored, hrange]
    exact hholds _ hlow hhigh
  · intro env x st st' hx
    cases stored <;> cases hrange <;>
      simp [hx, Machine.cast?]

theorem reinterpret_restores (stored value : Builtin) (least other size n : Int)
    (hstored : stored.range? = some (other, size)) (hvalue : value.range? = some (least, size))
    (hlow : least ≤ n) (hhigh : n < least + size) :
    (SlotCoding.reinterpret stored value).Restores m lib (.int n) := by
  intro env x st st' hx
  have hback := wrapTo_wrapTo other hlow hhigh
  simp only [SlotCoding.stored, hstored] at hx
  cases value <;> cases hvalue <;>
    simp [hx, Machine.cast?, hback]

theorem singleBits_stores (bits : BitVec 32) :
    SlotCoding.singleBits.Stores m lib .int32 (.single bits) where
  fits := by
    have hlow := BitVec.le_toInt bits
    have hhigh := @BitVec.toInt_lt 32 bits
    simp only [SlotCoding.stored, Machine.wordHolds, decide_eq_true_eq]
    omega
  eval := by
    intro env x st st' hx
    simp [evalAll, hx]

theorem singleBits_restores (bits : BitVec 32) :
    SlotCoding.singleBits.Restores m lib (.single bits) := by
  intro env x st st' hx
  simp only [SlotCoding.stored] at hx
  simp [evalAll, hx]

theorem doubleBits_fits (bits : BitVec 64) :
    Machine.wordHolds .int64 (.int bits.toInt) = true := by
  have hlow := BitVec.le_toInt bits
  have hhigh := @BitVec.toInt_lt 64 bits
  simp only [Machine.wordHolds, decide_eq_true_eq]
  omega

theorem doubleBits_stores (bits : BitVec 64) :
    SlotCoding.doubleBits.Stores m lib .int64 (.double bits) where
  fits := doubleBits_fits bits
  eval := by
    intro env x st st' hx
    simp [evalAll, hx]

theorem doubleBits_restores (bits : BitVec 64) :
    SlotCoding.doubleBits.Restores m lib (.double bits) := by
  intro env x st st' hx
  simp only [SlotCoding.stored] at hx
  simp [evalAll, hx]

theorem narrowedBits_stores (q : Rat) :
    SlotCoding.narrowedBits.Stores m lib .int64 (.decimal q) where
  fits := doubleBits_fits (m.narrow q)
  eval := by
    intro env x st st' hx
    simp [evalAll, hx, Machine.cast?]

theorem truth_stores (b : Bool) : SlotCoding.truth.Stores m lib .byte (.bool b) where
  fits := by cases b <;> rfl
  eval := by
    intro env x st st' hx
    have hone : int32? 1 = some (.int 1) := rfl
    have hzero : int32? 0 = some (.int 0) := rfl
    cases b <;>
      simp [hx, hone, hzero, Machine.cast?, wrapTo]

theorem truth_restores (b : Bool) : SlotCoding.truth.Restores m lib (.bool b) := by
  intro env x st st' hx
  have hzero : int32? 0 = some (.int 0) := rfl
  cases b <;> simp only [SlotCoding.stored] at hx <;>
    simp [hx, hzero, Machine.operate?, Value.same?]

/-- A character as an integer of some width. -/
theorem cast_char {stored : Builtin} {least size : Int} (hrange : stored.range? = some (least, size))
    (code : BitVec 16) :
    m.cast? (.builtin stored) (.char code) = some (.int (wrapTo least size code.toNat)) := by
  cases stored <;> cases hrange <;> simp [Machine.cast?]

theorem charCast_stores {word : Word} {stored : Builtin} (hword : word.integer? = some stored)
    (code : BitVec 16) :
    (SlotCoding.casts (.builtin stored) (.builtin .char)).Stores m lib word (.char code) := by
  obtain ⟨least, size, hrange, hsize, hholds⟩ := Word.range_of_integer? hword
  have hcast := cast_char m hrange code
  constructor
  · obtain ⟨hlow, hhigh⟩ := wrapTo_bounds least (code.toNat : Int) hsize
    simp only [SlotCoding.stored, hcast, Option.getD_some]
    exact hholds _ hlow hhigh
  · intro env x st st' hx
    simp [hx, hcast]

theorem charCast_restores (stored : Builtin) (least size : Int) (code : BitVec 16)
    (hstored : stored.range? = some (least, size))
    (hback : wrapTo least size code.toNat % 65536 = code.toNat) :
    (SlotCoding.casts (.builtin stored) (.builtin .char)).Restores m lib (.char code) := by
  have hcast := cast_char m hstored code
  intro env x st st' hx
  simp only [SlotCoding.stored, hcast, Option.getD_some] at hx
  simp [hx, Machine.cast?, char_ofInt code _ hback]

/-- The slot of a primitive stores every value of it. -/
theorem primitiveSlot_stores (platform : Platform) (kind : PrimitiveKind) (v : Value)
    (holds : kind.valueType.Holds v) :
    ∃ size word coding, platform.primitiveSlot kind = .integer size word coding ∧
      size = .nat (m.wordWidth word) ∧ coding.Stores m lib word v := by
  cases kind with
  | i8 =>
    obtain ⟨n, rfl, _, _⟩ := holds_integer rfl holds
    exact ⟨_, .byte, _, rfl, rfl, reinterpret_stores m lib rfl .sbyte n⟩
  | u16 =>
    obtain ⟨n, rfl, _, _⟩ := holds_integer rfl holds
    exact ⟨_, .int16, _, rfl, rfl, reinterpret_stores m lib rfl .ushort n⟩
  | u32 =>
    obtain ⟨n, rfl, _, _⟩ := holds_integer rfl holds
    exact ⟨_, .int32, _, rfl, rfl, reinterpret_stores m lib rfl .uint n⟩
  | u64 =>
    obtain ⟨n, rfl, _, _⟩ := holds_integer rfl holds
    exact ⟨_, .int64, _, rfl, rfl, reinterpret_stores m lib rfl .ulong n⟩
  | u8 => exact ⟨_, .byte, _, rfl, rfl, integer_stores m lib rfl holds⟩
  | octet => exact ⟨_, .byte, _, rfl, rfl, integer_stores m lib rfl holds⟩
  | i16 => exact ⟨_, .int16, _, rfl, rfl, integer_stores m lib rfl holds⟩
  | i32 => exact ⟨_, .int32, _, rfl, rfl, integer_stores m lib rfl holds⟩
  | i64 => exact ⟨_, .int64, _, rfl, rfl, integer_stores m lib rfl holds⟩
  | f32 =>
    cases holds with
    | integer _ _ _ _ hrange => cases hrange
    | float bits => exact ⟨_, _, _, rfl, rfl, singleBits_stores m lib bits⟩
  | f64 =>
    cases holds with
    | integer _ _ _ _ hrange => cases hrange
    | double bits => exact ⟨_, _, _, rfl, rfl, doubleBits_stores m lib bits⟩
  | longdouble =>
    cases holds with
    | integer _ _ _ _ hrange => cases hrange
    | decimal q => exact ⟨_, _, _, rfl, rfl, narrowedBits_stores m lib q⟩
  | bool =>
    cases holds with
    | integer _ _ _ _ hrange => cases hrange
    | bool b => exact ⟨_, _, _, rfl, rfl, truth_stores m lib b⟩
  | char =>
    cases holds with
    | integer _ _ _ _ hrange => cases hrange
    | char code => exact ⟨_, .byte, _, rfl, rfl, charCast_stores m lib rfl code⟩
  | wchar =>
    cases holds with
    | integer _ _ _ _ hrange => cases hrange
    | char code =>
      cases platform with
      | windows => exact ⟨_, .int16, _, rfl, rfl, charCast_stores m lib rfl code⟩
      | linux => exact ⟨_, .int32, _, rfl, rfl, charCast_stores m lib rfl code⟩

/-- The slot of a primitive gives back every value that a round trip keeps. -/
theorem primitiveSlot_restores (platform : Platform) (kind : PrimitiveKind) (v : Value)
    (holds : kind.valueType.Holds v) (keeps : kind.Keeps v) (size : Expr) (word : Word)
    (coding : SlotCoding) (h : platform.primitiveSlot kind = .integer size word coding) :
    coding.Restores m lib v := by
  cases kind with
  | i8 =>
    obtain ⟨n, rfl, hlow, hhigh⟩ := holds_integer rfl holds
    cases h
    exact reinterpret_restores m lib .byte .sbyte _ _ _ n rfl rfl hlow hhigh
  | u16 =>
    obtain ⟨n, rfl, hlow, hhigh⟩ := holds_integer rfl holds
    cases h
    exact reinterpret_restores m lib .short .ushort _ _ _ n rfl rfl hlow hhigh
  | u32 =>
    obtain ⟨n, rfl, hlow, hhigh⟩ := holds_integer rfl holds
    cases h
    exact reinterpret_restores m lib .int .uint _ _ _ n rfl rfl hlow hhigh
  | u64 =>
    obtain ⟨n, rfl, hlow, hhigh⟩ := holds_integer rfl holds
    cases h
    exact reinterpret_restores m lib .long .ulong _ _ _ n rfl rfl hlow hhigh
  | f32 =>
    cases h
    cases holds with
    | integer _ _ _ _ hrange => cases hrange
    | float bits => exact singleBits_restores m lib bits
  | f64 =>
    cases h
    cases holds with
    | integer _ _ _ _ hrange => cases hrange
    | double bits => exact doubleBits_restores m lib bits
  | longdouble => exact absurd rfl keeps.1
  | bool =>
    cases h
    cases holds with
    | integer _ _ _ _ hrange => cases hrange
    | bool b => exact truth_restores m lib b
  | char =>
    cases h
    cases holds with
    | integer _ _ _ _ hrange => cases hrange
    | char code =>
      have hbyte := keeps.2 rfl code rfl
      refine charCast_restores m lib .byte 0 256 code rfl ?_
      rw [wrapTo_eq_self (by omega) (by omega)]
      omega
  | wchar =>
    cases holds with
    | integer _ _ _ _ hrange => cases hrange
    | char code =>
      have hcode := code.isLt
      cases platform with
      | windows =>
        cases h
        refine charCast_restores m lib .short (-32768) 65536 code rfl ?_
        unfold wrapTo
        omega
      | linux =>
        cases h
        refine charCast_restores m lib .int (-2147483648) 4294967296 code rfl ?_
        rw [wrapTo_natCast _ _ code (by omega) (by omega)]
        omega
  | _ =>
    cases h
    exact plain_restores m lib v

theorem int_cast_member (path : String) (n : Int) (hn : InInt32 n) :
    m.cast? (.builtin .int) (.member path n) = some (.int n) := by
  have hwrap : wrapTo (-2147483648) 4294967296 n = n := by
    obtain ⟨hlow, hhigh⟩ := hn
    apply wrapTo_eq_self <;> omega
  simp [Machine.cast?, hwrap]

/-- A cast to an enum. -/
theorem enum_cast (path : String) (hpath : m.isEnum path = true) (v : Value) (n : Int)
    (hv : Machine.ordinal? v = some n) (hn : InInt32 n) :
    m.cast? (.named path) v = some (.member path n) := by
  have hwrap : wrapTo (-2147483648) 4294967296 n = n := by
    obtain ⟨hlow, hhigh⟩ := hn
    apply wrapTo_eq_self <;> omega
  simp only [Machine.cast?, hpath, hv, hwrap, if_true, Option.map_some]

theorem enumSlot_stores (value : Ty) (path : String) (n : Int) (hn : InInt32 n) :
    (SlotCoding.casts (.builtin .int) value).Stores m lib .int32 (.member path n) := by
  have hcast := int_cast_member m path n hn
  constructor
  · obtain ⟨hlow, hhigh⟩ := hn
    simp only [SlotCoding.stored, hcast, Option.getD_some, Machine.wordHolds, decide_eq_true_eq]
    omega
  · intro env x st st' hx
    simp [hx, hcast]

theorem enumSlot_restores (path : String) (hpath : m.isEnum path = true) (n : Int)
    (hn : InInt32 n) :
    (SlotCoding.casts (.builtin .int) (.named path)).Restores m lib (.member path n) := by
  intro env x st st' hx
  simp only [SlotCoding.stored, int_cast_member m path n hn, Option.getD_some] at hx
  simp [hx, enum_cast m path hpath (.int n) n rfl hn]

end

end InteropGen

import InteropGen.Target.TransferType

/-!
# Slots of native buffers

The elements of sequences and of out-of-line arrays lie in native memory one after the other, each
in a slot. A slot has a size, a statement that stores a value at an offset, and an expression that
loads it again.
-/

set_option autoImplicit false

namespace InteropGen

open CSharp

/-- How a scalar becomes the integer that its slot stores, and back. -/
inductive SlotCoding where
  /-- The integer itself. -/
  | plain
  /-- The integer with the same low bits, of the signedness that memory functions take. -/
  | reinterpret (stored value : Builtin)
  /-- The bits of a single precision number. -/
  | singleBits
  /-- The bits of a double precision number. -/
  | doubleBits
  /-- The bits of the double that a decimal narrows to. -/
  | narrowedBits
  /-- One for true and zero for false; anything but zero is true again. -/
  | truth
  /-- A cast either way. -/
  | casts (stored value : Ty)
  deriving DecidableEq, Repr

/-- The stored integer of a value. -/
def SlotCoding.encode : SlotCoding → Expr → Expr
  | plain, x => x
  | reinterpret stored _, x => .uncheckedCast (.builtin stored) x
  | singleBits, x => .call .singleToInt32Bits [x]
  | doubleBits, x => .call .doubleToInt64Bits [x]
  | narrowedBits, x => .call .doubleToInt64Bits [.cast (.builtin .double) x]
  | truth, x => .cast (.builtin .byte) (.paren (.conditional x (.nat 1) (.nat 0)))
  | casts stored _, x => .cast stored x

/-- The value of a stored integer. -/
def SlotCoding.decode : SlotCoding → Expr → Expr
  | plain, x => x
  | reinterpret _ value, x => .uncheckedCast (.builtin value) x
  | singleBits, x => .call .int32BitsToSingle [x]
  | doubleBits, x => .call .int64BitsToDouble [x]
  | narrowedBits, x => .cast (.builtin .decimal) (.call .int64BitsToDouble [x])
  | truth, x => .binary .unequal x (.nat 0)
  | casts _ value, x => .cast value x

/-- The slot of one element. -/
inductive Slot where
  /-- An integer of the given size and its coding. -/
  | integer (size : Expr) (word : Word) (coding : SlotCoding)
  /-- A transfer struct. -/
  | transferStruct (type : Ty)

namespace Slot

/-- The size of a slot in bytes. -/
def size : Slot → Expr
  | integer size _ _ => size
  | .transferStruct type => .call (.sizeOf type) []

/-- The call that stores a value at an offset from a pointer. -/
def write (slot : Slot) (pointer offset value : Expr) : Expr :=
  match slot with
  | integer _ word coding => .call (.write word) [pointer, offset, coding.encode value]
  | .transferStruct _ =>
    .call .structureToPtr
      [value, .call .intPtrAdd [pointer, offset], .constant .falseValue]

/-- The value stored at an offset from a pointer. -/
def read (slot : Slot) (pointer offset : Expr) : Expr :=
  match slot with
  | integer _ word coding => coding.decode (.call (.read word) [pointer, offset])
  | .transferStruct type => .call (.ptrToStructure type) [.call .intPtrAdd [pointer, offset]]

end Slot

/-- The slot of a primitive. -/
def Platform.primitiveSlot (platform : Platform) : PrimitiveKind → Slot
  | .i8 => .integer (.nat 1) .byte (.reinterpret .byte .sbyte)
  | .u8 | .octet => .integer (.nat 1) .byte .plain
  | .i16 => .integer (.nat 2) .int16 .plain
  | .u16 => .integer (.nat 2) .int16 (.reinterpret .short .ushort)
  | .i32 => .integer (.nat 4) .int32 .plain
  | .u32 => .integer (.nat 4) .int32 (.reinterpret .int .uint)
  | .i64 => .integer (.nat 8) .int64 .plain
  | .u64 => .integer (.nat 8) .int64 (.reinterpret .long .ulong)
  | .f32 => .integer (.nat 4) .int32 .singleBits
  | .f64 => .integer (.nat 8) .int64 .doubleBits
  | .longdouble => .integer (.nat 8) .int64 .narrowedBits
  | .bool => .integer (.nat 1) .byte .truth
  | .char => .integer (.nat 1) .byte (.casts (.builtin .byte) (.builtin .char))
  | .wchar =>
    if platform.widensChars then
      .integer (.nat 4) .int32 (.casts (.builtin .int) (.builtin .char))
    else .integer (.nat 2) .int16 (.casts (.builtin .short) (.builtin .char))

/-- The slot of an element; a string is stored as the handle of its native copy. -/
def Target.slot (t : Target) : Element → Slot
  | .primitive kind => t.platform.primitiveSlot kind
  | .string _ => .integer (.constant .sizeOfHandle) .intPtr .plain
  | .enum e =>
    .integer (.constant .sizeOfInt) .int32 (.casts (.builtin .int) (valueTypeOf e.name))
  | .struct s => .transferStruct (t.transferTypeOf s.name)

/-- The wire tag of a primitive. -/
def PrimitiveKind.wireTag : PrimitiveKind → WireTag
  | i8 => .int8 | u8 => .uint8 | i16 => .int16 | u16 => .uint16
  | i32 => .int32 | u32 => .uint32 | i64 => .int64 | u64 => .uint64
  | f32 => .float | f64 => .double | longdouble => .longDouble
  | octet => .octet | bool => .bool | char => .char | wchar => .wchar

/-- The wire tag of a string. -/
def StringKind.wireTag : StringKind → WireTag
  | narrow => .string
  | wide => .wstring

end InteropGen

import InteropGen.Proofs.Literals.Numbers
import InteropGen.Proofs.Literals.Printed
import InteropGen.Proofs.Rejection.Reported
import InteropGen.Proofs.Targets.Emission

/-!
# Which constants are accepted

A constant is accepted if its value is one of its type, and then its literal is printed the same for
every target. The values of a type are told value by value: an integer by the bits of the type, a
number by its magnitude, a character by its code point.

* `TypeNode.Admits` — the values of a type, through typedefs;
* `constantLiteral?_isSome_iff` — these values have a literal, and no other;
* `decimal?_toString` — the literal of an integer is the integer in decimal notation;
* `Generator.constants_exact` — which constants are accepted, what is reported of the others, and
  what is printed of an integer.
-/

set_option autoImplicit false

namespace InteropGen

open CSharp

/-! ## The values of a type -/

namespace PrimitiveKind

/-- The bits of an integer type. -/
def bits? : PrimitiveKind → Option Nat
  | i8 | u8 | octet => some 8
  | i16 | u16 => some 16
  | i32 | u32 => some 32
  | i64 | u64 => some 64
  | _ => none

/-- Whether the integers of a type have a sign. -/
def isSigned (kind : PrimitiveKind) : Bool :=
  kind ∈ [i8, i16, i32, i64]

/-- The floating-point types. -/
def IsFloating : PrimitiveKind → Prop
  | f32 | f64 | longdouble => True
  | _ => False

/-- The integer is a value of the type. The floating-point types take every integer of 64 bits and
round it. -/
def HoldsInteger (kind : PrimitiveKind) (i : Int) : Prop :=
  match kind.bits? with
  | some bits =>
    if kind.isSigned then -2 ^ (bits - 1) ≤ i ∧ i < 2 ^ (bits - 1) else 0 ≤ i ∧ i < 2 ^ bits
  | none => kind.IsFloating

/-- A number of this magnitude is a value of the type. A number of single precision is at most the
largest of them, and what is printed as a decimal number is below `2 ^ 96`. -/
def HoldsMagnitude (kind : PrimitiveKind) (magnitude : ℚ) : Prop :=
  match kind with
  | f32 => magnitude ≤ (2 - 2 ^ (-23 : ℤ)) * 2 ^ (127 : ℤ)
  | f64 => True
  | longdouble => magnitude < 2 ^ (96 : ℤ)
  | _ => False

/-- The value is one of the type. -/
def Admits (kind : PrimitiveKind) : ConstValue → Prop
  | .int i => kind.HoldsInteger i
  | .uint n => kind.HoldsInteger n
  | .float x => x.isFinite ∧ kind.HoldsMagnitude x.absolute
  | .bool _ => kind = bool
  | .char c => (kind = char ∧ c.toNat ≤ 0xFF) ∨ (kind = wchar ∧ c.toNat ≤ 0xFFFF)
  | .str _ | .enumerator _ => False

end PrimitiveKind

/-- The value is one of the type, typedefs being followed. -/
def TypeNode.Admits (value : ConstValue) : TypeNode → Prop
  | .alias ⟨_, target⟩ => target.Admits value
  | .primitive kind => kind.Admits value
  | .narrowString | .wideString => ∃ text, value = .str text
  | .enum e => ∃ member ∈ e.values, value = .enumerator member
  | .struct _ | .union _ | .fixedArray _ _ | .sequence _ _ => False

namespace ConstValue

/-- The integer that a value is, given with or without a sign. -/
def Denotes (i : Int) : ConstValue → Prop
  | .int v => v = i
  | .uint n => (n : Int) = i
  | _ => False

/-- An integer, if the value is one, has 64 bits with its sign or without one. -/
def InWord : ConstValue → Prop
  | .int i => -2 ^ 63 ≤ i ∧ i < 2 ^ 63
  | .uint n => n < 2 ^ 64
  | _ => True

theorem integer?_eq_some_iff (value : ConstValue) (i : Int) :
    value.integer? = some i ↔ value.Denotes i := by
  cases value with
  | int v | uint n => exact Option.some_inj
  | _ => exact ⟨nofun, nofun⟩

theorem Denotes.number? {value : ConstValue} {i : Int} (h : value.Denotes i) :
    value.number? = some (.ofInt i) := by
  cases value with
  | int v | uint n => exact congrArg (fun i => some (Binary64.ofInt i)) h
  | _ => exact absurd h id

theorem Denotes.bounds {value : ConstValue} {i : Int} (h : value.Denotes i) (hword : value.InWord) :
    -2 ^ 63 ≤ i ∧ i < 2 ^ 64 := by
  cases value with
  | int v =>
    obtain rfl : v = i := h
    obtain ⟨hlow, hhigh⟩ := hword
    omega
  | uint n =>
    obtain rfl : (n : Int) = i := h
    have hhigh : n < 2 ^ 64 := hword
    omega
  | _ => exact absurd h id

end ConstValue

/-! ## Which values have a literal -/

theorem integerLiteral?_eq_some_iff (range : Int × Int) (i : Int) (literal : String) :
    integerLiteral? range i = some literal ↔
      (range.1 ≤ i ∧ i ≤ range.2) ∧ toString i = literal := by
  unfold integerLiteral?
  split <;> simp_all

theorem numberLiteral?_isSome_iff (fits : Binary64 → Bool) (suffix : String) (x : Binary64) :
    (numberLiteral? fits suffix x).isSome ↔ x.isFinite ∧ fits x := by
  unfold numberLiteral?
  split <;> simp_all

namespace PrimitiveKind

variable {kind : PrimitiveKind} {value : ConstValue}

theorem fits_single_iff (x : Binary64) :
    x.magnitudeLE Binary64.largestBinary32 = true ↔ f32.HoldsMagnitude x.absolute := by
  have hlargest : ((Binary64.largestBinary32 : Nat) : ℚ) = (2 - 2 ^ (-23 : ℤ)) * 2 ^ (127 : ℤ) := by
    norm_num [Binary64.largestBinary32]
  rw [Binary64.magnitudeLE_iff, hlargest]
  rfl

theorem fits_decimal_iff (x : Binary64) :
    x.magnitudeLT (2 ^ 96) = true ↔ longdouble.HoldsMagnitude x.absolute := by
  have hlimit : ((2 ^ 96 : Nat) : ℚ) = 2 ^ (96 : ℤ) := by norm_num
  rw [Binary64.magnitudeLT_iff, hlimit]
  rfl

/-- The literal of a number of floating-point type. -/
theorem literal?_number_isSome_iff (hkind : kind.IsFloating) {x : Binary64}
    (hvalue : value.number? = some x) :
    (kind.literal? value).isSome ↔ x.isFinite ∧ kind.HoldsMagnitude x.absolute := by
  cases kind with
  | f32 =>
    simp only [literal?, hvalue, Option.bind_some, numberLiteral?_isSome_iff, fits_single_iff]
  | f64 =>
    simp only [literal?, hvalue, Option.bind_some, numberLiteral?_isSome_iff, HoldsMagnitude]
  | longdouble =>
    simp only [literal?, hvalue, Option.bind_some, numberLiteral?_isSome_iff, fits_decimal_iff]
  | _ => exact absurd hkind id

/-- Integers of 64 bits are far from the limits of the floating-point types. -/
theorem holdsMagnitude_ofInt (hkind : kind.IsFloating) {i : Int} (hi : -2 ^ 63 ≤ i ∧ i < 2 ^ 64) :
    kind.HoldsMagnitude (Binary64.ofInt i).absolute := by
  have hsmall := Binary64.absolute_ofInt_lt hi
  cases kind with
  | f32 =>
    have hlimit : (2 : ℚ) ^ (66 : ℤ) ≤ (2 - 2 ^ (-23 : ℤ)) * 2 ^ (127 : ℤ) := by norm_num
    exact hsmall.le.trans hlimit
  | f64 => trivial
  | longdouble =>
    have hlimit : (2 : ℚ) ^ (66 : ℤ) ≤ 2 ^ (96 : ℤ) := by norm_num
    exact hsmall.trans_le hlimit
  | _ => exact absurd hkind id

theorem exists_range (hkind : kind.bits? ≠ none) : ∃ range, kind.range? = some range := by
  cases kind with
  | f32 | f64 | longdouble | bool | char | wchar => exact absurd rfl hkind
  | _ => exact ⟨_, rfl⟩

/-- The literal of a value of integer type. -/
theorem literal?_integer {range : Int × Int} (hrange : kind.range? = some range)
    (value : ConstValue) : kind.literal? value = value.integer?.bind (integerLiteral? range) := by
  cases kind with
  | f32 | f64 | longdouble | bool | char | wchar => cases hrange
  | _ =>
    cases hrange
    rfl

/-- The range of an integer type is that of its bits. -/
theorem mem_range_iff {range : Int × Int} (hrange : kind.range? = some range) (i : Int) :
    range.1 ≤ i ∧ i ≤ range.2 ↔ kind.HoldsInteger i := by
  cases kind with
  | f32 | f64 | longdouble | bool | char | wchar => cases hrange
  | _ =>
    cases hrange
    simp [HoldsInteger, bits?, isSigned]
    omega

/-- An integer has a literal of the type exactly if it is a value of the type. -/
theorem literal?_denotes_isSome_iff {i : Int} (hvalue : value.Denotes i)
    (hi : -2 ^ 63 ≤ i ∧ i < 2 ^ 64) : (kind.literal? value).isSome ↔ kind.HoldsInteger i := by
  have hfloating : kind.IsFloating → (kind.literal? value).isSome := fun hkind =>
    (literal?_number_isSome_iff hkind hvalue.number?).mpr
      ⟨Binary64.isFinite_ofInt hi, holdsMagnitude_ofInt hkind hi⟩
  cases hrange : kind.range? with
  | some range =>
    have hinteger := (value.integer?_eq_some_iff i).mpr hvalue
    rw [literal?_integer hrange, hinteger, Option.bind_some, ← mem_range_iff hrange]
    simp [Option.isSome_iff_exists, integerLiteral?_eq_some_iff]
  | none =>
    cases kind with
    | f32 | f64 | longdouble => exact iff_of_true (hfloating trivial) trivial
    | bool | char | wchar =>
      refine iff_of_false ?_ id
      cases value with
      | int | uint => exact nofun
      | _ => exact absurd hvalue id
    | _ => cases hrange

/-- The values of a primitive type have a literal, and no other. -/
theorem literal?_isSome_iff (kind : PrimitiveKind) {value : ConstValue} (hword : value.InWord) :
    (kind.literal? value).isSome ↔ kind.Admits value := by
  cases value with
  | int i =>
    have hdenotes : (ConstValue.int i).Denotes i := rfl
    exact literal?_denotes_isSome_iff hdenotes (hdenotes.bounds hword)
  | uint n =>
    have hdenotes : (ConstValue.uint n).Denotes n := rfl
    exact literal?_denotes_isSome_iff hdenotes (hdenotes.bounds hword)
  | float x =>
    cases kind with
    | f32 | f64 | longdouble =>
      refine literal?_number_isSome_iff ?_ rfl
      trivial
    | _ => exact iff_of_false nofun And.right
  | bool b | char c =>
    cases kind <;>
      simp [literal?, Admits, ConstValue.number?, ConstValue.integer?, charLiteral?]
  | str text | enumerator member => cases kind <;> exact iff_of_false nofun id

end PrimitiveKind

/-- The values of a type have a literal, and no other. -/
theorem constantLiteral?_isSome_iff {value : ConstValue} (hword : value.InWord) :
    (type : TypeNode) → ((constantLiteral? type.shape value).isSome ↔ type.Admits value)
  | .alias ⟨_, target⟩ => constantLiteral?_isSome_iff hword target
  | .primitive kind => by
    rw [TypeNode.Admits, ← kind.literal?_isSome_iff hword]
    exact iff_of_eq (congrArg (· = true) Option.isSome_map)
  | .narrowString | .wideString => by
    cases value with
    | str text => exact iff_of_true rfl ⟨text, rfl⟩
    | _ => exact iff_of_false nofun nofun
  | .enum e => by
    cases value with
    | enumerator member =>
      simp [TypeNode.shape, TypeNode.Admits, constantLiteral?]
    | _ => exact iff_of_false nofun nofun
  | .struct _ | .union _ | .sequence _ _ => iff_of_false nofun id
  | .fixedArray element dims => by
    refine iff_of_false ?_ id
    have hnone : constantLiteral? (Shape.arrayOf dims element.shape) value = none := by
      cases element.shape <;> rfl
    simp [TypeNode.shape, hnone]

/-! ## Integers in decimal notation -/

/-- The number that decimal digits spell. -/
def digits? (chars : List Char) : Option Nat :=
  if chars ≠ [] ∧ chars.all Char.isDigit then some (Nat.ofDigitChars 10 chars 0) else none

/-- The integer that a text spells: digits, with a minus sign before them if it is negative. -/
def decimal? : List Char → Option Int
  | '-' :: digits => (digits? digits).map fun n => -(n : Int)
  | digits => (digits? digits).map fun n => (n : Int)

theorem digits?_toDigits (n : Nat) : digits? (Nat.toDigits 10 n) = some n := by
  have hdigits : (Nat.toDigits 10 n).all Char.isDigit = true :=
    List.all_eq_true.mpr fun _ hc => Nat.isDigit_of_mem_toDigits (by decide) (by decide) hc
  rw [digits?, if_pos ⟨Nat.toDigits_ne_nil, hdigits⟩, Nat.ofDigitChars_ten_toDigits]

theorem decimal?_toString (i : Int) : decimal? (toString i).toList = some i := by
  cases i with
  | ofNat n =>
    have htext : (toString (Int.ofNat n)).toList = Nat.toDigits 10 n := Nat.toList_repr
    have hsign : ∀ rest, Nat.toDigits 10 n ≠ '-' :: rest := by
      intro rest hminus
      have hmem : '-' ∈ Nat.toDigits 10 n := hminus ▸ List.mem_cons_self
      exact absurd (Nat.isDigit_of_mem_toDigits (by decide) (by decide) hmem) (by decide)
    rw [htext, decimal?, digits?_toDigits]
    · rfl
    · exact hsign
  | negSucc n =>
    have htext : (toString (Int.negSucc n)).toList = '-' :: Nat.toDigits 10 (n + 1) := by
      simp [toString, Int.repr]
    rw [htext, decimal?, digits?_toDigits]
    rfl

namespace PrimitiveKind

variable {kind : PrimitiveKind} {value : ConstValue}

/-- The literal of an integer type spells the value. -/
theorem literal?_decimal (hkind : kind.bits? ≠ none) {literal : String}
    (h : kind.literal? value = some literal) :
    ∃ i, value.Denotes i ∧ decimal? literal.toList = some i := by
  obtain ⟨range, hrange⟩ := exists_range hkind
  rw [literal?_integer hrange] at h
  obtain ⟨i, hinteger, hliteral⟩ := Option.bind_eq_some_iff.mp h
  obtain ⟨-, rfl⟩ := (integerLiteral?_eq_some_iff range i literal).mp hliteral
  exact ⟨i, (value.integer?_eq_some_iff i).mp hinteger, decimal?_toString i⟩

end PrimitiveKind

/-! ## Constants that are generated -/

namespace ConstDecl

variable {c : ConstDecl}

/-- The code of a constant with a literal. It has nothing on the transfer side. -/
def code (c : ConstDecl) (type : Ty) (literal : String) : DeclarationCode :=
  ⟨⟨some ⟨c.name.enclosing, .constant type c.name.short literal⟩, none⟩, []⟩

/-- The error of a constant without one. -/
def invalid (c : ConstDecl) : GenError :=
  .invalidConstant c.name.qualified c.type.describe c.value.shown

theorem constCode_of_some {type : Ty} {literal : String}
    (h : constantLiteral? c.type.shape c.value = some (type, literal)) :
    Target.constCode c = .ok (c.code type literal) := by
  simp only [Target.constCode, ConstDecl.literal, h]
  rfl

theorem constCode_of_none (h : constantLiteral? c.type.shape c.value = none) :
    Target.constCode c = .error c.invalid := by
  simp only [Target.constCode, ConstDecl.literal, h]
  rfl

end ConstDecl

namespace Generator

variable (g : Generator) {c : ConstDecl}

theorem emit_const_of_some {type : Ty} {literal : String}
    (h : constantLiteral? c.type.shape c.value = some (type, literal)) :
    ∃ out, g.emit (.const c) = .ok out :=
  (g.emit_ok_iff (.const c)).mpr fun _ _ => ⟨_, ConstDecl.constCode_of_some h⟩

/-- The first target already fails. -/
theorem emit_const_of_none (htargets : g.settings.targets ≠ [])
    (h : constantLiteral? c.type.shape c.value = none) :
    g.emit (.const c) = .error c.invalid := by
  obtain ⟨layout, rest, hlayouts⟩ := List.exists_cons_of_ne_nil htargets
  rw [← failure?_eq_some_iff, failure?_emit, hlayouts]
  simp [Target.declarationCode, ConstDecl.constCode_of_none h]

/-- A target prints a constant: the literal can be read off its text, and no template stands behind
it. -/
structure Prints (c : ConstDecl) (type : Ty) (literal : String) (text : Sides String) : Prop where
  values : printedLiteral? g.style.indentWidth c.name.enclosing type.text
    (identifier c.name.short) text.values = some literal.toList
  transfers : text.transfers = ""

/-- Every target prints the constant. -/
theorem text_const {out : DeclarationOutput} (hout : g.emit (.const c) = .ok out) {type : Ty}
    {literal : String} (h : constantLiteral? c.type.shape c.value = some (type, literal))
    {layout : Layout} (hlayout : layout ∈ g.settings.targets) :
    ∃ text, out.targets.get? layout = some text ∧ g.Prints c type literal text := by
  obtain ⟨code, hcode, htext⟩ := (g.emitted hout).text layout hlayout
  have hsame : c.code type literal = code :=
    Except.ok.inj ((ConstDecl.constCode_of_some h).symm.trans hcode)
  rw [← hsame] at htext
  exact ⟨_, htext, printedLiteral?_text g.style type c.name.short literal c.name.enclosing, rfl⟩

/-- **Constants.** Under valid settings, let the integer of a constant, if its value is one, have 64
bits. The constant is accepted exactly if its value is one of its type, and is reported as invalid
otherwise. If the type is one of integers, every target prints a text from which the integer is read
in decimal notation, however it was given. -/
theorem constants_exact (hsettings : g.settings.check = .ok ()) (hword : c.value.InWord) :
    ((∃ out, g.emit (.const c) = .ok out) ↔ c.type.Admits c.value) ∧
    (¬ c.type.Admits c.value → g.emit (.const c) = .error c.invalid) ∧
    ∀ out kind, g.emit (.const c) = .ok out → c.type.shape = .primitive kind → kind.bits? ≠ none →
      ∃ i literal, c.value.Denotes i ∧ decimal? literal.toList = some i ∧
        ∀ layout ∈ g.settings.targets, ∃ text, out.targets.get? layout = some text ∧
          g.Prints c (.builtin kind.valueType) literal text := by
  have htargets := Settings.targets_ne_nil hsettings
  have hadmits := constantLiteral?_isSome_iff hword c.type
  have hrejected : ¬ c.type.Admits c.value → g.emit (.const c) = .error c.invalid := fun hnot =>
    g.emit_const_of_none htargets (Option.not_isSome_iff_eq_none.mp (hadmits.not.mpr hnot))
  refine ⟨⟨fun haccepted => ?_, fun hvalue => ?_⟩, hrejected, ?_⟩
  · obtain ⟨out, hout⟩ := haccepted
    by_contra hnot
    rw [hrejected hnot] at hout
    cases hout
  · obtain ⟨⟨type, literal⟩, hliteral⟩ := Option.isSome_iff_exists.mp (hadmits.mpr hvalue)
    exact g.emit_const_of_some hliteral
  · intro out kind hout hkind hbits
    cases hliteral : constantLiteral? c.type.shape c.value with
    | none =>
      rw [g.emit_const_of_none htargets hliteral] at hout
      cases hout
    | some result =>
      obtain ⟨literal, hprimitive, rfl⟩ := Option.map_eq_some_iff.mp (hkind ▸ hliteral)
      obtain ⟨i, hdenotes, hdecimal⟩ := PrimitiveKind.literal?_decimal hbits hprimitive
      exact ⟨i, literal, hdenotes, hdecimal, fun _ hlayout => g.text_const hout hliteral hlayout⟩

end Generator

namespace Sounding

def depth : TypeNode :=
  .alias ⟨.ofSegments ["Sounding", "Depth"],
    .alias ⟨.ofSegments ["Sounding", "Fathoms"], .primitive .i64⟩⟩

/-- The least value of its type. -/
def lowest : ConstDecl := ⟨.ofSegments ["Sounding", "LOWEST"], depth, .int (-2 ^ 63)⟩

/-- One more than the greatest value of its type. -/
def beyond : ConstDecl := ⟨.ofSegments ["Sounding", "BEYOND"], depth, .uint (2 ^ 63)⟩

def generator : Generator := ⟨.default, .empty⟩

end Sounding

theorem sounding_constants :
    (∃ (out : DeclarationOutput) (literal : String),
      Sounding.generator.emit (.const Sounding.lowest) = .ok out ∧
      decimal? literal.toList = some (-2 ^ 63) ∧
      ∃ text, out.targets.get? .rectangular = some text ∧
        printedLiteral? 4 (some "Sounding") "long" "LOWEST" text.values = some literal.toList) ∧
    Sounding.generator.emit (.const Sounding.beyond) =
      .error (.invalidConstant "Sounding::BEYOND" "typedef Sounding::Depth"
        "UInt(9223372036854775808)") := by
  obtain ⟨hlowest, -, hprinted⟩ :=
    Sounding.generator.constants_exact (c := Sounding.lowest) rfl ⟨by decide, by decide⟩
  obtain ⟨-, hbeyond, -⟩ :=
    Sounding.generator.constants_exact (c := Sounding.beyond) rfl
      (show (2 ^ 63 : Nat) < 2 ^ 64 by decide)
  obtain ⟨out, hout⟩ := hlowest.mpr (show (-2 ^ 63 : Int) ≤ -2 ^ 63 ∧ _ < _ by decide)
  obtain ⟨i, literal, hvalue, hdecimal, htext⟩ := hprinted out .i64 hout rfl nofun
  obtain rfl : -2 ^ 63 = i := hvalue
  obtain ⟨text, hget, prints⟩ := htext .rectangular (by decide)
  refine ⟨⟨out, literal, hout, hdecimal, text, hget, prints.values⟩, hbeyond ?_⟩
  exact fun h => absurd (show ((2 ^ 63 : Nat) : Int) < 2 ^ 63 from h.2) (by decide)

end InteropGen

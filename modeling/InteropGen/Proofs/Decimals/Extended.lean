import InteropGen.Proofs.Decimals.Literals

/-!
# Integer constants of extended precision

A constant of extended precision is printed as a decimal number. Its value is rounded to a binary64
number before that, so what is printed of an integer is a shortest integer that is rounded to the
same number.

* `ShortestRounding` — the integer that is printed for an integer;
* `exists_shortestRounding` — the integer that the literal stands for, and when it is the same;
* `Generator.extended_constants` — what is printed of a constant.
-/

set_option autoImplicit false

namespace InteropGen

open Binary64 CSharp

/-! ## Integers -/

/-- The integer `j` is what is printed for `i`: it is rounded to the same number, it has as many zeros
at its end as any integer of which that is true, and of those it is closest to the number. -/
structure ShortestRounding (i j : Int) : Prop where
  rounded : ofInt j = ofInt i
  zeros : ∀ m, ofInt m = ofInt i → ∀ k : Nat, (10 : Int) ^ k ∣ m → (10 : Int) ^ k ∣ j
  closest : ∀ m, ofInt m = ofInt i → (∀ k : Nat, (10 : Int) ^ k ∣ j → (10 : Int) ^ k ∣ m) →
    |(j.natAbs : ℚ) - (ofInt i).absolute| ≤ |(m.natAbs : ℚ) - (ofInt i).absolute|

theorem ten_pow_dvd_iff (k : Nat) (i : Int) : (10 : Int) ^ k ∣ i ↔ 10 ^ k ∣ i.natAbs := by
  rw [← Int.natCast_dvd]
  push_cast
  rfl

section
variable {i j : Int}

theorem shortestRounding_zero : ShortestRounding 0 0 where
  rounded := rfl
  zeros _ _ k _ := dvd_zero _
  closest m hm _ := by
    have hzero : m = 0 := by
      by_contra hne
      exact isNormal_ofInt hne (hm ▸ rfl) (hm ▸ ofInt_zero_exponentField)
    rw [hzero]

/-- A shortest decimal of the number that an integer is rounded to, with the sign of the integer. -/
theorem shortestRounding_of_isShortest (hi : i ≠ 0) (hfinite : (ofInt i).isFinite)
    (hj : (ofInt j).isFinite) (hsign : j < 0 ↔ i < 0)
    (h : Shortest.IsShortest (ofInt i) j.natAbs) : ShortestRounding i j where
  rounded := by
    have hpos := (isNormal_ofInt hi hfinite).pos_of_near h.near
    have hne : j ≠ 0 := by
      rintro rfl
      simp at hpos
    exact (ofInt_eq_iff hi hfinite hj).mpr ⟨hne, hsign, h.near⟩
  zeros m hm k hk := by
    obtain ⟨-, -, hnear⟩ := (ofInt_eq_iff hi hfinite (hm ▸ hfinite)).mp hm
    exact (ten_pow_dvd_iff k j).mpr (h.zeros m.natAbs hnear k ((ten_pow_dvd_iff k m).mp hk))
  closest m hm hzeros := by
    obtain ⟨-, -, hnear⟩ := (ofInt_eq_iff hi hfinite (hm ▸ hfinite)).mp hm
    exact h.closest m.natAbs hnear fun k hk =>
      (ten_pow_dvd_iff k m).mp (hzeros k ((ten_pow_dvd_iff k j).mpr hk))

/-- The integer that is printed of an integer of 64 bits. -/
theorem exists_shortestRounding (hi : -2 ^ 63 ≤ i ∧ i < 2 ^ 64) :
    ∃ j : Int, decimalLiteral? (floatLiteral (ofInt i) "m").toList = some (j : ℚ) ∧
      j.natAbs < 2 ^ 96 ∧ ShortestRounding i j ∧ (i.natAbs ≤ 2 ^ 53 → j = i) ∧
      ∀ k : Nat, (10 : Int) ^ k ∣ i → i.natAbs < 10 ^ (15 + k) → j = i := by
  obtain rfl | hne := eq_or_ne i 0
  · refine ⟨0, ?_, by decide, shortestRounding_zero, fun _ => rfl, fun _ _ _ => rfl⟩
    exact decimalLiteral?_positive (NumberLayout.real?_positional 0 0)
  · have hfinite := isFinite_ofInt hi
    have hx := isNormal_ofInt hne hfinite
    have hnear := near_ofInt hne hfinite
    obtain ⟨v, hv⟩ := absolute_ofRatio_natural (natAbs_ne_zero hne) hfinite
    obtain ⟨j, hread, hsign, hshortest⟩ := decimalLiteral?_floatLiteral hx hfinite hv
    rw [negative_ofInt hne hfinite, decide_eq_true_iff] at hsign
    have hsmall : j.natAbs ≤ 2 * i.natAbs := by
      have := hx.le_two_mul_of_near hnear hshortest.near
      exact_mod_cast this
    have hj : (ofInt j).isFinite := isFinite_ofRatio_natural _ (by omega)
    have hsame : j.natAbs = i.natAbs → j = i := by omega
    refine ⟨j, hread, by omega, shortestRounding_of_isShortest hne hfinite hj hsign hshortest,
      fun hle => hsame ?_, fun k hk hdigits => hsame ?_⟩
    · exact hshortest.eq_of_le hx (absolute_ofRatio_exact (natAbs_ne_zero hne) hfinite hle) hle
    · exact hshortest.eq_of_digits hx hnear ((ten_pow_dvd_iff k i).mp hk) hdigits

end

/-! ## Constants -/

/-- The literal of an integer as a constant of extended precision. -/
theorem constantLiteral?_extended {type : TypeNode} (hkind : type.shape = .primitive .longdouble)
    {value : ConstValue} {i : Int} (hvalue : value.Denotes i) (hword : value.InWord) :
    constantLiteral? type.shape value =
      some (.builtin PrimitiveKind.longdouble.valueType, floatLiteral (ofInt i) "m") := by
  have hi := hvalue.bounds hword
  have hfloating : PrimitiveKind.longdouble.IsFloating := trivial
  have hfits := (PrimitiveKind.fits_decimal_iff (ofInt i)).mpr
    (PrimitiveKind.holdsMagnitude_ofInt hfloating hi)
  have hliteral : PrimitiveKind.longdouble.literal? value =
      some (floatLiteral (ofInt i) "m") := by
    simp only [PrimitiveKind.literal?, hvalue.number?, Option.bind_some, numberLiteral?,
      isFinite_ofInt hi, hfits, Bool.and_self, if_true]
  rw [hkind, constantLiteral?, hliteral]
  rfl

/-- **Constants of extended precision.** An integer of 64 bits, given with or without a sign, is
accepted for a constant of extended precision, and every target prints a text from which the same
decimal literal is read for it. The literal stands for an integer that a decimal number holds: a shortest one of those that are
rounded to the same binary64 number. It is the value itself if the value is at most `2 ^ 53`, its
sign apart, or has at most fifteen digits, the zeros at its end apart. -/
theorem Generator.extended_constants (g : Generator) {c : ConstDecl}
    (hkind : c.type.shape = .primitive .longdouble) {i : Int} (hvalue : c.value.Denotes i)
    (hword : c.value.InWord) :
    ∃ (out : DeclarationOutput) (literal : String) (j : Int), g.emit (.const c) = .ok out ∧
      (∀ layout ∈ g.settings.targets, ∃ text, out.targets.get? layout = some text ∧
        g.Prints c (.builtin PrimitiveKind.longdouble.valueType) literal text) ∧
      decimalLiteral? literal.toList = some (j : ℚ) ∧ j.natAbs < 2 ^ 96 ∧ ShortestRounding i j ∧
      (i.natAbs ≤ 2 ^ 53 → j = i) ∧
      ∀ k : Nat, (10 : Int) ^ k ∣ i → i.natAbs < 10 ^ (15 + k) → j = i := by
  have hliteral := constantLiteral?_extended hkind hvalue hword
  obtain ⟨j, hread, hlimit, hshortest, hexact, hdigits⟩ :=
    exists_shortestRounding (hvalue.bounds hword)
  obtain ⟨out, hout⟩ := g.emit_const_of_some hliteral
  exact ⟨out, _, j, hout, fun layout hlayout => g.text_const hout hliteral hlayout, hread, hlimit,
    hshortest, hexact, hdigits⟩

namespace Beacon

def range : TypeNode := .alias ⟨.ofSegments ["Beacon", "Range"], .primitive .longdouble⟩

/-- Far beyond `2 ^ 53`, but of two digits, less the zeros at its end. -/
def farthest : ConstDecl := ⟨.ofSegments ["Beacon", "FARTHEST"], range, .int (-4200000000000000000)⟩

/-- The least natural number that is no binary64 number. -/
def count : ConstDecl :=
  ⟨.ofSegments ["Beacon", "COUNT"], .primitive .longdouble, .int 9007199254740993⟩

def generator : Generator := ⟨{ Settings.default with targets := [.jagged] }, .empty⟩

end Beacon

theorem beacon_farthest_printed :
    ∃ (out : DeclarationOutput) (literal : String) (text : Sides String),
      Beacon.generator.emit (.const Beacon.farthest) = .ok out ∧
      out.targets.get? .jagged = some text ∧
      printedLiteral? 4 (some "Beacon") "decimal" "FARTHEST" text.values = some literal.toList ∧
      decimalLiteral? literal.toList = some (-4200000000000000000) := by
  obtain ⟨out, literal, j, hout, htext, hread, -, -, -, hdigits⟩ :=
    Beacon.generator.extended_constants (c := Beacon.farthest) rfl (i := -4200000000000000000) rfl
      ⟨by decide, by decide⟩
  obtain rfl : j = -4200000000000000000 := hdigits 17 (by decide) (by decide)
  obtain ⟨text, hget, prints⟩ := htext .jagged (by decide)
  exact ⟨out, literal, text, hout, hget, prints.values, by exact_mod_cast hread⟩

/-- The last digit is another one. -/
theorem beacon_count_rounded :
    ∃ (out : DeclarationOutput) (literal : String) (text : Sides String),
      Beacon.generator.emit (.const Beacon.count) = .ok out ∧
      out.targets.get? .jagged = some text ∧
      printedLiteral? 4 (some "Beacon") "decimal" "COUNT" text.values = some literal.toList ∧
      Beacon.count.value.Denotes 9007199254740993 ∧
      decimalLiteral? literal.toList = some 9007199254740992 ∧
      decimalLiteral? literal.toList ≠ some 9007199254740993 := by
  have hliteral : constantLiteral? Beacon.count.type.shape Beacon.count.value =
      some (.builtin .decimal, "9007199254740992.0m") := by decide +kernel
  have hread : decimalLiteral? "9007199254740992.0m".toList = some 9007199254740992 :=
    decimalLiteral?_positive (NumberLayout.real?_positional 9007199254740992 0)
  obtain ⟨out, hout⟩ := Beacon.generator.emit_const_of_some hliteral
  have hlayout : Layout.jagged ∈ Beacon.generator.settings.targets := by decide
  obtain ⟨text, hget, prints⟩ := Beacon.generator.text_const hout hliteral hlayout
  refine ⟨out, _, text, hout, hget, prints.values, rfl, hread, ?_⟩
  rw [hread]
  norm_num

end InteropGen

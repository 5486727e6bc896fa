import InteropGen.Proofs.Blocks.Fragments

/-!
# Literals on one line

A constant may have any value, a string with line ends in it included. Its literal stands on one
line: a line end is written as an escape, and numbers consist of digits, signs and points.

* `oneLine_enclose` — quoted texts;
* `oneLine_format` — the digits of a number;
* `oneLine_constantLiteral` — every constant.
-/

set_option autoImplicit false

namespace InteropGen

open CSharp

theorem oneLine_toDigits {b : Nat} (hb : 1 < b) (hle : b ≤ 16) (n : Nat) :
    '\n' ∉ Nat.toDigits b n := by
  have hdigit : ∀ k < 16, Nat.digitChar k ≠ '\n' := by decide
  induction n using Nat.strongRecOn with
  | ind n ih =>
    rw [Nat.toDigits_eq_if hb]
    split
    · simp
    · rename_i hlarge
      have hlast := hdigit (n % b) (Nat.lt_of_lt_of_le (Nat.mod_lt n (by omega)) hle)
      rw [List.mem_append, not_or, List.mem_singleton]
      exact ⟨ih _ (Nat.div_lt_self (by omega) hb), hlast.symm⟩

theorem oneLine_toString_int (i : Int) : OneLine (toString i) := by
  cases i with
  | ofNat n => exact oneLine_toString n
  | negSucc n => exact oneLine_append.mpr ⟨by decide, oneLine_toString (n + 1)⟩

/-- No escape has a line end, and a line end has an escape. -/
theorem oneLine_escape {quote : Char} (hquote : quote ≠ '\n') (c : Char) :
    '\n' ∉ literalStyle.escape quote c := by
  unfold Text.QuoteStyle.escape
  by_cases hend : c = '\n'
  · simp [hend]
  · have hcontrol : '\n' ∉ literalStyle.control c.toNat := by
      have hdigits := oneLine_toDigits (b := 16) (by decide) (by decide) c.toNat
      simp [literalStyle, Text.hexDigits4, Text.hexDigits, hdigits]
    split_ifs <;> simp [hcontrol, Ne.symm hquote, Ne.symm hend]

theorem oneLine_enclose {quote : Char} (hquote : quote ≠ '\n') (chars : List Char) :
    '\n' ∉ literalStyle.enclose quote chars := by
  simp only [Text.QuoteStyle.enclose, List.mem_cons, List.mem_append, List.mem_flatMap]
  rintro (h | ⟨c, _, hc⟩ | h)
  · exact hquote h.symm
  · exact oneLine_escape hquote c hc
  · simp [hquote.symm] at h

theorem oneLine_format (layout : NumberLayout) (d : Digits) : '\n' ∉ layout.format d := by
  have hdigits : '\n' ∉ NumberLayout.digitChars d.value :=
    oneLine_toDigits (by decide) (by decide) d.value
  have hpower : '\n' ∉ (toString d.exponent).toList := oneLine_toString_int d.exponent
  have hzeros : ∀ n, '\n' ∉ List.replicate n '0' := fun n h =>
    absurd (List.eq_of_mem_replicate h) (by decide)
  unfold NumberLayout.format
  split
  · unfold NumberLayout.positional
    split
    · simp [hdigits, hzeros]
    · have hfront := fun n h => hdigits (List.mem_of_mem_take (i := n) h)
      have hback := fun n h => hdigits (List.mem_of_mem_drop (i := n) h)
      simp only [List.mem_append, not_or]
      refine ⟨⟨⟨hfront _, hzeros _⟩, by decide⟩, ?_⟩
      split
      · decide
      · exact hback _
  · unfold NumberLayout.scientific
    split
    · rename_i first second rest heq
      rw [heq] at hdigits
      simp_all
    · simpa [hdigits] using hpower

theorem Binary64.oneLine_text (x : Binary64) : OneLine x.text := by
  have hsign : OneLine (if x.negative then "-" else "") := by split <;> decide
  have hinfinite : OneLine "inf" := by decide
  have hzero : OneLine "0.0" := by decide
  have hdigits := oneLine_format Binary64.layout (Shortest.digits x)
  rw [← oneLine_ofList] at hdigits
  simp only [Binary64.text]
  generalize (if x.negative then "-" else "") = sign at hsign ⊢
  generalize String.ofList (Binary64.layout.format (Shortest.digits x)) = digits at hdigits ⊢
  split
  · decide
  · split
    · exact oneLine_append.mpr ⟨hsign, hinfinite⟩
    · split
      · exact oneLine_append.mpr ⟨hsign, hzero⟩
      · exact oneLine_append.mpr ⟨hsign, hdigits⟩

theorem oneLine_floatLiteral (x : Binary64) {suffix : String} (h : OneLine suffix) :
    OneLine (floatLiteral x suffix) := by
  refine oneLine_append.mpr ⟨?_, h⟩
  split
  · exact x.oneLine_text
  · exact oneLine_append.mpr ⟨x.oneLine_text, by decide⟩

theorem oneLine_numberLiteral? {fits : Binary64 → Bool} {suffix : String} (h : OneLine suffix)
    {value : ConstValue} {literal : String}
    (hliteral : value.number?.bind (numberLiteral? fits suffix) = some literal) :
    OneLine literal := by
  obtain ⟨x, _, hx⟩ := Option.bind_eq_some_iff.mp hliteral
  unfold numberLiteral? at hx
  split at hx
  · cases hx
    exact oneLine_floatLiteral x h
  · cases hx

theorem oneLine_charLiteral? {limit : Nat} {value : ConstValue} {literal : String}
    (h : charLiteral? limit value = some literal) : OneLine literal := by
  unfold charLiteral? at h
  split at h
  · split at h
    · cases h
      exact oneLine_ofList.mpr (oneLine_enclose (by decide) _)
    · cases h
  · cases h

/-- The literal of a constant of primitive type stands on one line. -/
theorem oneLine_primitiveLiteral {kind : PrimitiveKind} {value : ConstValue} {literal : String}
    (h : kind.literal? value = some literal) : OneLine literal := by
  unfold PrimitiveKind.literal? at h
  split at h
  · exact oneLine_numberLiteral? (by decide) h
  · exact oneLine_numberLiteral? (by decide) h
  · exact oneLine_numberLiteral? (by decide) h
  · split at h
    · rename_i b
      cases h
      cases b <;> decide
    · cases h
  · exact oneLine_charLiteral? h
  · exact oneLine_charLiteral? h
  · simp only [Option.bind_eq_bind, Option.bind_eq_some_iff] at h
    obtain ⟨range, _, v, _, hv⟩ := h
    unfold integerLiteral? at hv
    split at hv
    · cases hv
      exact oneLine_toString_int v
    · cases hv

/-- The literal of a constant stands on one line, whatever is in it. -/
theorem oneLine_constantLiteral {shape : Shape} {value : ConstValue} {type : Ty} {literal : String}
    (h : constantLiteral? shape value = some (type, literal)) (htype : type.Spells Spelling.Sober)
    (hmember : ∀ member, value = .enumerator member → PlainText member) : OneLine literal := by
  unfold constantLiteral? at h
  split at h
  · obtain ⟨text, htext, hresult⟩ := Option.map_eq_some_iff.mp h
    cases hresult
    exact oneLine_primitiveLiteral htext
  · cases h
    exact oneLine_ofList.mpr (oneLine_enclose (by decide) _)
  · rename_i e member
    split at h
    · cases h
      have hidentifier := (hmember member rfl).identifier.oneLine
      exact oneLine_append.mpr ⟨oneLine_append.mpr ⟨Ty.oneLine_text htype, by decide⟩, hidentifier⟩
    · cases h
  · cases h

end InteropGen

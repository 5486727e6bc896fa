import InteropGen.Generator.Basic
import InteropGen.Proofs.Draft
import InteropGen.Proofs.Literals.Reading
import InteropGen.Proofs.Reading.Loops

/-!
# New lines in literals

C# ends a line at five characters, and a literal must not contain any of them. Escapes are decided
by another classification: the line feed and the carriage return have letters, the next-line
character is a control character, but the line separator and the paragraph separator are neither,
and stand in a literal as they stand in the value.

* `escape_cases` — a character is printed as it is, or without a new line;
* `mem_enclose_iff` — the new lines of a quoted text are its separators;
* `Target.new_lines_of_constant` — a constant is declared on one line exactly if its value has no
  separator; one of type `char` always is.
-/

set_option autoImplicit false

namespace InteropGen

open CSharp

namespace Literals

/-- The line separator and the paragraph separator. -/
def separators : List Char :=
  ['\u2028', '\u2029']

/-- The characters that end a line of C#. -/
def newLines : List Char :=
  ['\n', '\r', '\u0085'] ++ separators

/-- What holds of both separators holds of every separator. -/
theorem forall_separator {P : Char → Prop} (h : P '\u2028' ∧ P '\u2029') :
    ∀ x ∈ separators, P x := by
  simpa [separators] using h

/-- What holds of each of the five new lines holds of every new line. -/
theorem forall_newLine {P : Char → Prop}
    (h : P '\n' ∧ P '\r' ∧ P '\u0085' ∧ P '\u2028' ∧ P '\u2029') : ∀ x ∈ newLines, P x := by
  simpa [newLines, separators] using h

/-- The escape of a control character is printed without a new line. -/
theorem notMem_control {c x : Char} (hcontrol : Text.isControl c = true) (hx : x ∈ newLines) :
    x ∉ literalStyle.control c.toNat := by
  have hcode := toNat_lt_of_isControl hcontrol
  have hprinted : literalStyle.control c.toNat = ['\\', 'u'] ++ Text.hexDigits4 c.toNat := rfl
  have hdigits : ∀ k < 16, Nat.digitChar k ∉ newLines := by decide
  have hletters : ∀ y ∈ newLines, y ∉ ['\\', 'u'] := forall_newLine (by decide)
  rw [hprinted, hexDigits4_eq hcode, List.mem_append, not_or]
  refine ⟨hletters x hx, ?_⟩
  have hdigit : ∀ k < 16, x ≠ Nat.digitChar k := fun k hk h => hdigits k hk (h ▸ hx)
  simp only [List.mem_cons, List.not_mem_nil, or_false, not_or]
  exact ⟨hdigit _ (by omega), hdigit _ (by omega), hdigit _ (by omega), hdigit _ (by omega)⟩

/-- A character is printed as it is, which no new line but a separator is, or without any new line,
which no separator is. -/
theorem escape_cases {quote : Char} (hquote : IsQuote quote) (c : Char) :
    (literalStyle.escape quote c = [c] ∧ (c ∈ newLines → c ∈ separators)) ∨
      ((∀ x ∈ newLines, x ∉ literalStyle.escape quote c) ∧ c ∉ separators) := by
  have hletter : ∀ letter, letter ∉ newLines → ∀ x ∈ newLines, x ∉ ['\\', letter] :=
    fun letter hletter x hx hmem => by
      obtain rfl | hmem := List.mem_cons.mp hmem
      · exact absurd hx (by decide)
      · exact hletter (List.mem_singleton.mp hmem ▸ hx)
  have hquoted : quote ∉ separators ∧ quote ∉ newLines := by
    rcases hquote with rfl | rfl <;> decide
  unfold Text.QuoteStyle.escape
  split_ifs with hslash hline hreturn htab hzero hend hcontrol
  · exact .inr ⟨hletter _ (by decide), by rw [hslash]; decide⟩
  · exact .inr ⟨hletter _ (by decide), by rw [hline]; decide⟩
  · exact .inr ⟨hletter _ (by decide), by rw [hreturn]; decide⟩
  · exact .inr ⟨hletter _ (by decide), by rw [htab]; decide⟩
  · exact .inr ⟨hletter _ (by decide), by rw [hzero]; decide⟩
  · exact .inr ⟨hletter _ hquoted.2, by rw [hend]; exact hquoted.1⟩
  · refine .inr ⟨fun x hx => notMem_control hcontrol hx, fun hmem => ?_⟩
    have hcodes : ∀ y ∈ separators, ¬ Text.isControl y = true := forall_separator (by decide)
    exact hcodes c hmem hcontrol
  · refine .inl ⟨rfl, fun hmem => ?_⟩
    have hcodes : ∀ y ∈ newLines, y = '\n' ∨ y = '\r' ∨ Text.isControl y = true ∨
        y ∈ separators := forall_newLine (by decide)
    exact (((hcodes c hmem).resolve_left hline).resolve_left hreturn).resolve_left hcontrol

/-- The new lines of a quoted text are its separators. -/
theorem mem_enclose_iff {quote : Char} (hquote : IsQuote quote) (text : List Char) {x : Char}
    (hx : x ∈ newLines) :
    x ∈ literalStyle.enclose quote text ↔ x ∈ text ∧ x ∈ separators := by
  have hend : x ≠ quote := by
    rcases hquote with rfl | rfl <;> rintro rfl <;> exact absurd hx (by decide)
  have hescape : ∀ c, x ∈ literalStyle.escape quote c ↔ x = c ∧ x ∈ separators := fun c => by
    obtain ⟨hplain, hseparator⟩ | ⟨hspelled, hc⟩ := escape_cases hquote c
    · rw [hplain, List.mem_singleton]
      exact ⟨fun h => ⟨h, h ▸ hseparator (h ▸ hx)⟩, And.left⟩
    · exact ⟨fun h => absurd h (hspelled x hx), fun ⟨h, hmem⟩ => absurd (h ▸ hmem) hc⟩
  simp [Text.QuoteStyle.enclose, hescape, hend]

end Literals

/-- The characters of a value that is a text. -/
def ConstValue.characters : ConstValue → List Char
  | .str text => text.toList
  | .char c => [c]
  | _ => []

/-- The types of characters and of strings. -/
def Shape.IsText : Shape → Prop
  | .string _ | .primitive .char | .primitive .wchar => True
  | _ => False

open Literals

theorem charLiteral?_eq_some {limit : Nat} {value : ConstValue} {literal : String}
    (h : charLiteral? limit value = some literal) :
    ∃ c, value = .char c ∧ c.toNat ≤ limit ∧ literal = charLiteral c := by
  unfold charLiteral? at h
  split at h
  · rename_i c
    split_ifs at h with hlimit
    cases h
    exact ⟨c, rfl, hlimit, rfl⟩
  · cases h

/-- The literal of a text has the separators of the text and no other new line, and its type is
printed without any. -/
theorem mem_constantLiteral_iff {shape : Shape} (htext : shape.IsText) {value : ConstValue}
    {type : Ty} {literal : String} (h : constantLiteral? shape value = some (type, literal)) :
    (∀ x ∈ newLines, x ∉ type.text.toList) ∧
      ∀ x ∈ newLines, x ∈ literal.toList ↔ x ∈ value.characters ∧ x ∈ separators := by
  have hchar : ∀ {limit : Nat}, charLiteral? limit value = some literal →
      ∀ x ∈ newLines, x ∈ literal.toList ↔ x ∈ value.characters ∧ x ∈ separators :=
    fun hliteral x hx => by
      obtain ⟨c, rfl, -, rfl⟩ := charLiteral?_eq_some hliteral
      rw [charLiteral, String.toList_ofList]
      exact mem_enclose_iff (.inr rfl) [c] hx
  cases shape with
  | string _ =>
    cases value with
    | str text =>
      cases h
      refine ⟨forall_newLine (by decide), fun x hx => ?_⟩
      rw [stringLiteral, String.toList_ofList]
      exact mem_enclose_iff (.inl rfl) text.toList hx
    | _ => cases h
  | primitive kind =>
    cases kind with
    | char | wchar =>
      obtain ⟨_, hliteral, hresult⟩ := Option.map_eq_some_iff.mp h
      cases hresult
      exact ⟨forall_newLine (by decide), hchar hliteral⟩
    | _ => cases htext
  | _ => cases htext

/-- A character of one byte is no separator. -/
theorem char_has_no_separator {value : ConstValue} {type : Ty} {literal : String}
    (h : constantLiteral? (.primitive .char) value = some (type, literal)) :
    ∀ x ∈ separators, x ∉ value.characters := by
  obtain ⟨_, hliteral, -⟩ := Option.map_eq_some_iff.mp h
  obtain ⟨c, rfl, hlimit, -⟩ := charLiteral?_eq_some hliteral
  have hcodes : ∀ y ∈ separators, 0xFF < y.toNat := forall_separator (by decide)
  intro x hx hmem
  obtain rfl := List.mem_singleton.mp hmem
  exact absurd hlimit (Nat.not_le_of_lt (hcodes x hx))

/-- Identifiers are printed without a new line. -/
theorem notMem_identifier {name : String} (h : isIdentifier name = true) {x : Char}
    (hx : x ∈ newLines) : x ∉ (identifier name).toList := by
  have hword : ∀ y ∈ newLines, Reading.isWordChar y = false ∧ y ≠ '@' :=
    forall_newLine (by decide)
  have hname : x ∉ name.toList := fun hmem => by
    have := Reading.isWordChar_of_isIdentifier h x hmem
    rw [(hword x hx).1] at this
    cases this
  unfold identifier
  split
  · simpa [hname] using (hword x hx).2
  · exact hname

/-- The lines of a constant have no new line in them exactly if its literal has none. -/
theorem TypeDecl.constant_unbroken_iff {type : Ty} {name literal : String}
    (htype : ∀ x ∈ newLines, x ∉ type.text.toList) (hname : isIdentifier name = true)
    (stem : String) (level : Nat) :
    (∀ line ∈ (TypeDecl.constant type name literal).lines stem level,
        ∀ x ∈ newLines, x ∉ line.text.toList) ↔
      ∀ x ∈ newLines, x ∉ literal.toList := by
  have hholder : ∀ x ∈ newLines, x ∉ "public static partial class Constants".toList :=
    forall_newLine (by decide)
  have hbraces : ∀ x ∈ newLines, x ∉ "\x7b".toList ∧ x ∉ "\x7d".toList :=
    forall_newLine (by decide)
  have hwords : ∀ x ∈ newLines, x ∉ "public const ".toList ∧ x ∉ " ".toList ∧
      x ∉ " = ".toList ∧ x ∉ ";".toList := forall_newLine (by decide)
  have hmember : ∀ x ∈ newLines,
      (x ∈ ("public const " ++ type.text ++ " " ++ identifier name ++ " = " ++ literal ++
        ";").toList ↔ x ∈ literal.toList) := fun x hx => by
    obtain ⟨hpublic, hblank, hequals, hend⟩ := hwords x hx
    simp only [String.toList_append, List.mem_append, hpublic, hblank, hequals, hend, htype x hx,
      notMem_identifier hname hx, false_or, or_false]
  simp only [TypeDecl.lines, headed, braced, List.cons_append, List.nil_append, List.mem_cons,
    List.not_mem_nil, or_false, forall_eq_or_imp, forall_eq]
  exact ⟨fun h x hx hmem => h.2.2.1 x hx ((hmember x hx).mpr hmem), fun h =>
    ⟨hholder, fun x hx => (hbraces x hx).1, fun x hx hmem => h x hx ((hmember x hx).mp hmem),
      fun x hx => (hbraces x hx).2⟩⟩

namespace Target

/-- **New lines of a constant.** The literal of an accepted constant whose type is one of texts has
the separators of its value and no other new line. So all lines of the constant are unbroken exactly
if its value has no separator, provided that its name is an identifier; and the literal of a `char`
has no new line in it. -/
theorem new_lines_of_constant (t : Target) (wireCodec : Bool) (c : ConstDecl)
    (code : DeclarationCode) (h : t.declarationCode wireCodec (.const c) = .ok code)
    (htext : c.type.shape.IsText) :
    ∃ type literal,
      code.units.values = some ⟨c.name.enclosing, .constant type c.name.short literal⟩ ∧
      (∀ x ∈ newLines, x ∈ literal.toList ↔ x ∈ c.value.characters ∧ x ∈ separators) ∧
      (isIdentifier c.name.short = true → ∀ stem level,
        (∀ line ∈ (TypeDecl.constant type c.name.short literal).lines stem level,
          ∀ x ∈ newLines, x ∉ line.text.toList) ↔ ∀ x ∈ separators, x ∉ c.value.characters) ∧
      (c.type.shape = .primitive .char → ∀ x ∈ newLines, x ∉ literal.toList) := by
  simp only [declarationCode, constCode, except_bind_ok_iff] at h
  obtain ⟨⟨type, literal⟩, hliteral, hresult⟩ := h
  cases hresult
  have hliteral : constantLiteral? c.type.shape c.value = some (type, literal) := by
    unfold ConstDecl.literal at hliteral
    split at hliteral
    · rename_i hsome
      rw [hsome, Except.ok.inj hliteral]
    · cases hliteral
  obtain ⟨htype, hmem⟩ := mem_constantLiteral_iff htext hliteral
  have hnone : (∀ x ∈ newLines, x ∉ literal.toList) ↔ ∀ x ∈ separators, x ∉ c.value.characters :=
    ⟨fun hall x hx hvalue =>
      hall x (List.mem_append_right _ hx) ((hmem x (List.mem_append_right _ hx)).mpr ⟨hvalue, hx⟩),
     fun hall x hx hx' => hall x ((hmem x hx).mp hx').2 ((hmem x hx).mp hx').1⟩
  refine ⟨type, literal, rfl, hmem, fun hname stem level => ?_, fun hchar => ?_⟩
  · exact (TypeDecl.constant_unbroken_iff htype hname stem level).trans hnone
  · exact hnone.mpr (char_has_no_separator (hchar ▸ hliteral))

end Target

namespace Harbor

/-- A constant whose text has a line separator in it. -/
def notice : ConstDecl where
  name := .ofSegments ["Harbor", "NOTICE"]
  type := .narrowString
  value := .str "open\u2028closed"

def target : Target := (Generator.mk .default .empty).target .jagged

end Harbor

theorem harbor_notice_new_lines :
    ∃ code type literal, Harbor.target.declarationCode true (.const Harbor.notice) = .ok code ∧
      code.units.values = some ⟨some "Harbor", .constant type "NOTICE" literal⟩ ∧
      ∀ x ∈ newLines, x ∈ literal.toList ↔ x = '\u2028' := by
  obtain ⟨type, literal, hunit, hmem, -, -⟩ :=
    Harbor.target.new_lines_of_constant true Harbor.notice _ rfl trivial
  refine ⟨_, type, literal, rfl, hunit, fun x hx => (hmem x hx).trans ?_⟩
  have hall : ∀ y ∈ newLines,
      (y ∈ Harbor.notice.value.characters ∧ y ∈ separators) ↔ y = '\u2028' :=
    forall_newLine (by decide)
  exact hall x hx

/-- The line of the constant is broken by the separator, which its literal has in it unescaped. -/
theorem harbor_notice_broken :
    ∃ code type literal, Harbor.target.declarationCode true (.const Harbor.notice) = .ok code ∧
      code.units.values = some ⟨some "Harbor", .constant type "NOTICE" literal⟩ ∧
      '\u2028' ∈ newLines ∧ '\u2028' ∈ literal.toList :=
  ⟨_, _, _, rfl, rfl, by decide, by decide⟩

end InteropGen

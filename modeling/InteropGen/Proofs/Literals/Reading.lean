import Mathlib.Data.List.Basic
import InteropGen.CSharp.Literal

/-!
# Literals read back

A reader of string and character literals, which knows nothing of how they are printed: a backslash
begins an escape, the first quote that is not escaped ends the literal, and every other character
denotes itself. What is printed for a value is read as that value, whatever stands behind it.

* `hexDigits4_eq` — four digits are enough for every code below `16 ^ 4`;
* `readBody?_escape` — one printed character is read as that character;
* `readBody?_escapes` — a printed text is read up to its closing quote, by induction on the text.
-/

set_option autoImplicit false

namespace InteropGen.Literals

open CSharp

/-- The value of a hexadecimal digit in either case. -/
def hexValue? (c : Char) : Option Nat :=
  if c.isDigit then some (c.toNat - 48)
  else if 'a' ≤ c ∧ c ≤ 'f' then some (c.toNat - 87)
  else if 'A' ≤ c ∧ c ≤ 'F' then some (c.toNat - 55)
  else none

/-- The character whose code four hexadecimal digits spell. -/
def hexCharacter? (a b c d : Char) : Option Char := do
  let high := (← hexValue? a) * 16 + (← hexValue? b)
  let code := (high * 16 + (← hexValue? c)) * 16 + (← hexValue? d)
  if code.isValidChar then some (Char.ofNat code) else none

/-- The character that a backslash and one character denote in a literal between `quote`s. -/
def letterEscape? (quote c : Char) : Option Char :=
  if c = '\\' ∨ c = quote then some c
  else if c = 'n' then some '\n'
  else if c = 'r' then some '\r'
  else if c = 't' then some '\t'
  else if c = '0' then some '\x00'
  else none

/-- What is read begins with `c`. -/
def withFirst (c : Char) (read : List Char × List Char) : List Char × List Char :=
  (c :: read.1, read.2)

/-- What a literal denotes, read behind its opening quote, and the text behind its closing quote. -/
def readBody? (quote : Char) : List Char → Option (List Char × List Char)
  | [] => none
  | '\\' :: 'u' :: a :: b :: c :: d :: rest => do
    let x ← hexCharacter? a b c d
    (readBody? quote rest).map (withFirst x)
  | '\\' :: e :: rest => do
    let x ← letterEscape? quote e
    (readBody? quote rest).map (withFirst x)
  | c :: rest =>
    if c = quote then some ([], rest)
    else (readBody? quote rest).map (withFirst c)

/-- What a literal denotes, and the text behind it. -/
def read? (quote : Char) : List Char → Option (List Char × List Char)
  | [] => none
  | c :: rest => if c = quote then readBody? quote rest else none

/-! ## Codes in four digits -/

theorem hexValue?_digitChar : ∀ k < 16, hexValue? (Nat.digitChar k) = some k := by decide

/-- Filled up with zeros, the digits of a number are those of its sixteenth and one more. -/
theorem replicate_append_toDigits (places n : Nat) :
    List.replicate (places + 2 - (Nat.toDigits 16 n).length) '0' ++ Nat.toDigits 16 n =
      List.replicate (places + 1 - (Nat.toDigits 16 (n / 16)).length) '0' ++
        Nat.toDigits 16 (n / 16) ++ [Nat.digitChar (n % 16)] := by
  rw [Nat.toDigits_eq_if (by decide) (n := n)]
  split
  · rename_i hsmall
    have hdigit : Nat.toDigits 16 (n / 16) = ['0'] := by
      rw [Nat.div_eq_of_lt hsmall]
      rfl
    rw [hdigit, Nat.mod_eq_of_lt hsmall, ← List.replicate_succ']
    simp
  · simp

theorem hexDigits4_eq {n : Nat} (h : n < 16 ^ 4) :
    Text.hexDigits4 n =
      [Nat.digitChar (n / 16 / 16 / 16), Nat.digitChar (n / 16 / 16 % 16),
        Nat.digitChar (n / 16 % 16), Nat.digitChar (n % 16)] := by
  have hfirst : Nat.toDigits 16 (n / 16 / 16 / 16) = [Nat.digitChar (n / 16 / 16 / 16)] := by
    rw [Nat.toDigits_eq_if (by decide), if_pos (by omega)]
  have hpadded : Text.hexDigits4 n =
      List.replicate (2 + 2 - (Nat.toDigits 16 n).length) '0' ++ Nat.toDigits 16 n := rfl
  rw [hpadded, replicate_append_toDigits, replicate_append_toDigits, replicate_append_toDigits,
    hfirst]
  rfl

/-- Four digits are read as the character that they are printed for. -/
theorem hexCharacter?_digits {c : Char} (h : c.toNat < 16 ^ 4) :
    hexCharacter? (Nat.digitChar (c.toNat / 16 / 16 / 16)) (Nat.digitChar (c.toNat / 16 / 16 % 16))
      (Nat.digitChar (c.toNat / 16 % 16)) (Nat.digitChar (c.toNat % 16)) = some c := by
  have hcode : ((c.toNat / 16 / 16 / 16 * 16 + c.toNat / 16 / 16 % 16) * 16 + c.toNat / 16 % 16) *
      16 + c.toNat % 16 = c.toNat := by omega
  have hvalid : c.toNat.isValidChar := c.valid
  unfold hexCharacter?
  rw [hexValue?_digitChar _ (by omega), hexValue?_digitChar _ (by omega),
    hexValue?_digitChar _ (by omega), hexValue?_digitChar _ (by omega)]
  simp [hcode, hvalid]

/-! ## Characters and texts -/

/-- The quotes that literals are put in. -/
def IsQuote (quote : Char) : Prop :=
  quote = '"' ∨ quote = '\''

section
variable (quote : Char) {c : Char} (rest : List Char)

theorem readBody?_code (a b c d : Char) :
    readBody? quote ('\\' :: 'u' :: a :: b :: c :: d :: rest) =
      (hexCharacter? a b c d).bind fun x => (readBody? quote rest).map (withFirst x) := by
  rw [readBody?]
  rfl

/-- The one letter that needs digits behind it is not among the others. -/
theorem readBody?_letter (h : c ≠ 'u') :
    readBody? quote ('\\' :: c :: rest) =
      (letterEscape? quote c).bind fun x => (readBody? quote rest).map (withFirst x) := by
  rw [readBody?]
  · rfl
  · rintro _ _ _ _ _ rfl
    exact absurd rfl h

theorem readBody?_plain (hescape : c ≠ '\\') (hend : c ≠ quote) :
    readBody? quote (c :: rest) = (readBody? quote rest).map (withFirst c) := by
  rw [readBody?, if_neg hend]
  · exact fun _ _ _ _ _ h _ => hescape h
  · exact fun _ _ h _ => hescape h

end

theorem readBody?_end {quote : Char} (hquote : IsQuote quote) (rest : List Char) :
    readBody? quote (quote :: rest) = some ([], rest) := by
  rcases hquote with rfl | rfl <;> rfl

/-- Control characters have codes of two digits. -/
theorem toNat_lt_of_isControl {c : Char} (h : Text.isControl c = true) : c.toNat < 16 ^ 4 := by
  simp only [Text.isControl, Bool.or_eq_true, Bool.and_eq_true, decide_eq_true_eq] at h
  omega

/-- A printed character is read as that character. -/
theorem readBody?_escape {quote : Char} (hquote : IsQuote quote) (c : Char) (rest : List Char) :
    readBody? quote (literalStyle.escape quote c ++ rest) =
      (readBody? quote rest).map (withFirst c) := by
  have hletter : ∀ letter : Char, letter ≠ 'u' → letterEscape? quote letter = some c →
      readBody? quote (['\\', letter] ++ rest) = (readBody? quote rest).map (withFirst c) :=
    fun letter hletter hvalue => by
      rw [List.cons_append, List.singleton_append, readBody?_letter quote rest hletter, hvalue]
      rfl
  unfold Text.QuoteStyle.escape
  split_ifs with hslash hline hreturn htab hzero hend hcontrol
  · exact hletter _ (by decide) (by simp [letterEscape?, hslash])
  · exact hletter _ (by decide) (by rcases hquote with rfl | rfl <;> rw [hline] <;> rfl)
  · exact hletter _ (by decide) (by rcases hquote with rfl | rfl <;> rw [hreturn] <;> rfl)
  · exact hletter _ (by decide) (by rcases hquote with rfl | rfl <;> rw [htab] <;> rfl)
  · exact hletter _ (by decide) (by rcases hquote with rfl | rfl <;> rw [hzero] <;> rfl)
  · refine hletter _ ?_ (by simp [letterEscape?, hend])
    rcases hquote with rfl | rfl <;> decide
  · have hcode := toNat_lt_of_isControl hcontrol
    have hprinted : literalStyle.control c.toNat = ['\\', 'u'] ++ Text.hexDigits4 c.toNat := rfl
    rw [hprinted, hexDigits4_eq hcode]
    simp only [List.cons_append, List.nil_append]
    rw [readBody?_code, hexCharacter?_digits hcode]
    rfl
  · exact readBody?_plain quote rest hslash hend

/-- A printed text is read up to its closing quote, by induction on the text. -/
theorem readBody?_escapes {quote : Char} (hquote : IsQuote quote) (text behind : List Char) :
    readBody? quote (text.flatMap (literalStyle.escape quote) ++ quote :: behind) =
      some (text, behind) := by
  induction text with
  | nil => exact readBody?_end hquote behind
  | cons c rest ih =>
    rw [List.flatMap_cons, List.append_assoc, readBody?_escape hquote, ih]
    rfl

/-- A quoted text is read as it was, whatever stands behind it. -/
theorem read?_enclose {quote : Char} (hquote : IsQuote quote) (text behind : List Char) :
    read? quote (literalStyle.enclose quote text ++ behind) = some (text, behind) := by
  have hbody := readBody?_escapes hquote text behind
  simpa [Text.QuoteStyle.enclose, read?] using hbody

/-- **Literals read back.** The literal of a string and that of a character are read as what they
were printed for, and nothing is left of them, so that they never end early. Different values have
different literals. -/
theorem literals_read_back :
    (∀ (v : String) (behind : List Char),
      read? '"' ((stringLiteral v).toList ++ behind) = some (v.toList, behind)) ∧
    (∀ (c : Char) (behind : List Char),
      read? '\'' ((charLiteral c).toList ++ behind) = some ([c], behind)) ∧
    Function.Injective stringLiteral ∧ Function.Injective charLiteral := by
  have hstring : ∀ (v : String) (behind : List Char),
      read? '"' ((stringLiteral v).toList ++ behind) = some (v.toList, behind) := fun v behind => by
    rw [stringLiteral, String.toList_ofList]
    exact read?_enclose (.inl rfl) v.toList behind
  have hchar : ∀ (c : Char) (behind : List Char),
      read? '\'' ((charLiteral c).toList ++ behind) = some ([c], behind) := fun c behind => by
    rw [charLiteral, String.toList_ofList]
    exact read?_enclose (.inr rfl) [c] behind
  refine ⟨hstring, hchar, fun v w h => ?_, fun c d h => ?_⟩
  · have hread := hstring v []
    rw [h, hstring w []] at hread
    exact String.toList_inj.mp (congrArg Prod.fst (Option.some.inj hread)).symm
  · have hread := hchar c []
    rw [h, hchar d []] at hread
    exact (List.head_eq_of_cons_eq (congrArg Prod.fst (Option.some.inj hread))).symm

end InteropGen.Literals

import Mathlib.Data.List.SplitBy
import InteropGen.Proofs.Reading.Loops

/-!
# Printed code as lexemes

A text of code is cut where neighbouring characters do not belong together: names, keywords and
literals are longest runs of their characters, operators are longest runs of theirs, and brackets,
commas and points stand alone. An escaped name is one lexeme, with its `@`; so is a character
literal that is an escape.

* `lexemes_append` — two texts one after the other are cut apart unless they join;
* `lexemes_word` — a text of characters that go in names is one lexeme.
-/

set_option autoImplicit false

namespace InteropGen.Reading

/-- Characters of names, keywords, numerals and character literals. -/
def isNamePart (c : Char) : Bool :=
  isWordChar c || c = '@' || c = '\'' || c = '\\'

def isOperatorPart (c : Char) : Bool :=
  c = '=' || c = '!' || c = '?' || c = '*' || c = '+' || c = ':'

/-- Whether a character goes on the lexeme of the one before it. Digits behind a point are the
fraction of a literal. -/
def joined (a b : Char) : Bool :=
  isNamePart a && isNamePart b || isOperatorPart a && isOperatorPart b ||
    decide (a = '.') && b.isDigit

def lexemesOf (chars : List Char) : List String :=
  ((chars.splitBy joined).filter fun run => !run.all isBlank).map String.ofList

/-- The lexemes of a text. -/
def lexemes (text : String) : List String :=
  lexemesOf text.toList

theorem not_isOperatorPart_of_isWordChar {c : Char} (h : isWordChar c = true) :
    isOperatorPart c = false := by
  by_contra hoperator
  simp only [isOperatorPart, Bool.not_eq_false, Bool.or_eq_true, decide_eq_true_eq] at hoperator
  rcases hoperator with ((((rfl | rfl) | rfl) | rfl) | rfl) | rfl <;> exact absurd h (by decide)

/-- Two texts do not join where they meet. -/
def Apart (a b : String) : Prop :=
  ∀ x ∈ a.toList.getLast?, ∀ y ∈ b.toList.head?, joined x y = false

theorem Apart.append {a b : String} (h : Apart a b) (hne : b ≠ "") (rest : String) :
    Apart a (b ++ rest) := by
  intro x hx y hy
  rw [String.toList_append, List.head?_append_of_ne_nil _ (by simpa using hne)] at hy
  exact h x hx y hy

theorem lexemes_append {a b : String} (h : Apart a b) :
    lexemes (a ++ b) = lexemes a ++ lexemes b := by
  unfold lexemes lexemesOf
  rw [String.toList_append, List.splitBy_append h, List.filter_append, List.map_append]

@[simp] theorem lexemes_empty : lexemes "" = [] := rfl

/-- A character that joins with none: a bracket, a comma, a semicolon or a blank. -/
def isLoose (c : Char) : Bool :=
  !isNamePart c && !isOperatorPart c && decide (c ≠ '.')

theorem joined_loose_left {a : Char} (h : isLoose a = true) (b : Char) : joined a b = false := by
  simp only [isLoose, Bool.and_eq_true, Bool.not_eq_true', decide_eq_true_eq] at h
  simp [joined, h]

theorem joined_loose_right (a : Char) {b : Char} (h : isLoose b = true) : joined a b = false := by
  simp only [isLoose, Bool.and_eq_true, Bool.not_eq_true', decide_eq_true_eq] at h
  have hdigit : b.isDigit = false := by
    by_contra hdigit
    have hword := isWordChar_of_isDigit (by simpa using hdigit)
    have hnone := h.1.1
    simp [isNamePart, hword] at hnone
  simp [joined, h, hdigit]

/-- Nothing goes on with a point. -/
theorem joined_point (a : Char) : joined a '.' = false := by
  have hname : isNamePart '.' = false := by decide
  have hoperator : isOperatorPart '.' = false := by decide
  have hdigit : '.'.isDigit = false := by decide
  simp [joined, hname, hoperator, hdigit]

/-- A text that begins with nothing that goes on another. -/
def BeginsLoose (text : String) : Prop :=
  ∀ c ∈ text.toList.head?, isLoose c = true ∨ c = '.'

/-- A text that ends in nothing that another goes on. -/
def EndsLoose (text : String) : Prop :=
  ∀ c ∈ text.toList.getLast?, isLoose c = true

-- A search over all characters would decide these as well, and take too long.
instance (text : String) : Decidable (BeginsLoose text) :=
  Option.decidableForallMem text.toList.head?

instance (text : String) : Decidable (EndsLoose text) :=
  Option.decidableForallMem text.toList.getLast?

theorem BeginsLoose.apart {b : String} (h : BeginsLoose b) (a : String) : Apart a b := by
  intro x _ y hy
  rcases h y hy with hloose | rfl
  · exact joined_loose_right x hloose
  · exact joined_point x

theorem EndsLoose.apart {a : String} (h : EndsLoose a) (b : String) : Apart a b :=
  fun x hx y _ => joined_loose_left (h x hx) y

/-- Names, keywords and numerals. -/
def IsWord (text : String) : Prop :=
  text ≠ "" ∧ ∀ c ∈ text.toList, isNamePart c = true

instance (text : String) : Decidable (IsWord text) :=
  have : Decidable (∀ c ∈ text.toList, isNamePart c = true) := List.decidableBAll _ _
  inferInstanceAs (Decidable (_ ∧ _))

theorem not_isBlank_of_isNamePart {c : Char} (h : isNamePart c = true) : isBlank c = false := by
  have hspace : c ≠ ' ' := by
    rintro rfl
    exact absurd h (by decide)
  have hend : c ≠ '\n' := by
    rintro rfl
    exact absurd h (by decide)
  simp [isBlank, hspace, hend]

theorem lexemes_word {text : String} (h : IsWord text) : lexemes text = [text] := by
  obtain ⟨hne, hchars⟩ := h
  have hnonempty : text.toList ≠ [] := by simpa using hne
  have hchain : text.toList.IsChain fun a b => joined a b = true := by
    refine List.Pairwise.isChain (List.pairwise_of_forall_mem_list ?_)
    intro a ha b hb
    simp [joined, hchars a ha, hchars b hb]
  have hblank : text.toList.all isBlank = false := by
    obtain ⟨c, rest, hc⟩ := List.exists_cons_of_ne_nil hnonempty
    have hc' := not_isBlank_of_isNamePart (hchars c (by simp [hc]))
    simp [hc, hc']
  unfold lexemes lexemesOf
  rw [List.splitBy_of_isChain hnonempty hchain]
  simp [hblank]

theorem isWord_numeral (n : Nat) : IsWord (toString n) := by
  have htext : (toString n).toList = Nat.toDigits 10 n := by simp
  refine ⟨fun hempty => ?_, fun c hc => ?_⟩
  · exact Nat.toDigits_ne_nil (htext.symm.trans (congrArg String.toList hempty))
  · simp [isNamePart, isWordChar_digits n c (htext ▸ hc)]

theorem lexemes_numeral (n : Nat) : lexemes (toString n) = [toString n] :=
  lexemes_word (isWord_numeral n)

end InteropGen.Reading

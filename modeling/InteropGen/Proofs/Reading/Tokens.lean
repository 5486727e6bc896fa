import Mathlib.Data.List.Basic
import InteropGen.CSharp.Stmt

/-!
# Printed code as tokens

A text of code is cut into tokens again, as a compiler does before anything else. Words are longest
runs of letters, digits and underscores; of the operators of several characters only `++` is known;
blanks and line ends separate tokens and are none themselves.

* `tokens_renderLines` — the tokens of printed lines are those of their texts, so that indentation
  does not matter;
* `tokensFrom_name`, `tokensFrom_append` — a word ends where something else begins, and a blank
  separates what is before it from what is behind.
-/

set_option autoImplicit false

namespace InteropGen.Reading

open CSharp

inductive Token where
  /-- A name, a keyword or a numeral. -/
  | word (chars : List Char)
  /-- `++` -/
  | increment
  | symbol (c : Char)
  deriving DecidableEq

def isWordChar (c : Char) : Bool :=
  c.isAlphanum || c = '_'

def isBlank (c : Char) : Bool :=
  c = ' ' || c = '\n'

/-- A word that has ended, if one had begun. -/
def wordToken : List Char → List Token
  | [] => []
  | word => [.word word]

/-- The tokens of a text that follows the beginning of a word. -/
def tokensFrom : (word : List Char) → List Char → List Token
  | word, [] => wordToken word
  | word, '+' :: '+' :: rest => wordToken word ++ .increment :: tokensFrom [] rest
  | word, c :: rest =>
    if isWordChar c then tokensFrom (word ++ [c]) rest
    else if isBlank c then wordToken word ++ tokensFrom [] rest
    else wordToken word ++ .symbol c :: tokensFrom [] rest

/-- The tokens of a text. -/
def tokens (text : String) : List Token :=
  tokensFrom [] text.toList

@[simp] theorem tokensFrom_nil (word : List Char) : tokensFrom word [] = wordToken word := rfl

@[simp] theorem tokensFrom_increment (word rest : List Char) :
    tokensFrom word ('+' :: '+' :: rest) = wordToken word ++ .increment :: tokensFrom [] rest := rfl

/-- A character is looked at alone unless two plus signs meet. -/
theorem tokensFrom_cons {c : Char} {rest : List Char} (h : ¬(c = '+' ∧ rest.head? = some '+'))
    (word : List Char) :
    tokensFrom word (c :: rest) =
      if isWordChar c then tokensFrom (word ++ [c]) rest
      else if isBlank c then wordToken word ++ tokensFrom [] rest
      else wordToken word ++ .symbol c :: tokensFrom [] rest := by
  rw [tokensFrom]
  intro more hc hmore
  exact h ⟨hc, by rw [hmore]; rfl⟩

theorem tokensFrom_word {w : List Char} (h : ∀ c ∈ w, isWordChar c = true) (word rest : List Char) :
    tokensFrom word (w ++ rest) = tokensFrom (word ++ w) rest := by
  induction w generalizing word with
  | nil => simp
  | cons c more ih =>
    obtain ⟨hc, hmore⟩ := List.forall_mem_cons.mp h
    have hplus : c ≠ '+' := by
      rintro rfl
      exact absurd hc (by decide)
    rw [List.cons_append, tokensFrom_cons (fun hboth => hplus hboth.1), if_pos hc, ih hmore,
      List.append_assoc, List.singleton_append]

theorem tokensFrom_blank {c : Char} (h : isBlank c = true) (word rest : List Char) :
    tokensFrom word (c :: rest) = wordToken word ++ tokensFrom [] rest := by
  have hcases : c = ' ' ∨ c = '\n' := by simpa [isBlank] using h
  rcases hcases with rfl | rfl <;> rfl

theorem tokensFrom_symbol {c : Char} (hword : isWordChar c = false) (hblank : isBlank c = false)
    (hplus : c ≠ '+') (word rest : List Char) :
    tokensFrom word (c :: rest) = wordToken word ++ .symbol c :: tokensFrom [] rest := by
  rw [tokensFrom_cons (fun hboth => hplus hboth.1), hword, hblank]
  rfl

theorem wordToken_of_ne_nil {w : List Char} (h : w ≠ []) : wordToken w = [.word w] := by
  cases w with
  | nil => exact absurd rfl h
  | cons => rfl

/-- A word with nothing behind it. -/
theorem tokensFrom_only {w : List Char} (hw : ∀ c ∈ w, isWordChar c = true) (hne : w ≠ []) :
    tokensFrom [] w = [.word w] := by
  have hword := tokensFrom_word hw [] []
  rw [List.append_nil, List.nil_append, tokensFrom_nil] at hword
  rw [hword, wordToken_of_ne_nil hne]

/-- A word ends where something else begins. -/
theorem tokensFrom_name {w : List Char} (hw : ∀ c ∈ w, isWordChar c = true) (hne : w ≠ [])
    {c : Char} (hc : isWordChar c = false) (hplus : c ≠ '+') (rest : List Char) :
    tokensFrom [] (w ++ c :: rest) = .word w :: tokensFrom [] (c :: rest) := by
  have hword := wordToken_of_ne_nil hne
  rw [tokensFrom_word hw, List.nil_append]
  cases hblank : isBlank c with
  | true =>
    rw [tokensFrom_blank hblank, tokensFrom_blank hblank, hword]
    rfl
  | false =>
    rw [tokensFrom_symbol hc hblank hplus, tokensFrom_symbol hc hblank hplus, hword]
    rfl

/-- A blank separates what is before it from what is behind. -/
theorem tokensFrom_append {c : Char} (h : isBlank c = true) (word a rest : List Char) :
    tokensFrom word (a ++ c :: rest) = tokensFrom word a ++ tokensFrom [] rest := by
  have hapart : ∀ (d : Char) (more : List Char), (∀ tail, d = '+' → more = '+' :: tail → False) →
      ¬(d = '+' ∧ (more ++ c :: rest).head? = some '+') := by
    rintro d more hplus ⟨hd, hhead⟩
    cases more with
    | nil =>
      cases hhead
      exact absurd h (by decide)
    | cons e tail =>
      cases hhead
      exact hplus tail hd rfl
  fun_induction tokensFrom word a with
  | case1 word => exact tokensFrom_blank h word rest
  | case2 word more ih => simp [ih]
  | case3 word d more hplus hd ih =>
    rw [List.cons_append, tokensFrom_cons (hapart d more hplus), if_pos hd, ih]
  | case4 word d more hplus hd hblank ih =>
    rw [List.cons_append, tokensFrom_cons (hapart d more hplus), if_neg hd, if_pos hblank, ih,
      List.append_assoc]
  | case5 word d more hplus hd hblank ih =>
    rw [List.cons_append, tokensFrom_cons (hapart d more hplus), if_neg hd, if_neg hblank, ih]
    simp

/-- Indentation adds no token. -/
theorem tokensFrom_spaces (n : Nat) (rest : List Char) :
    tokensFrom [] (List.replicate n ' ' ++ rest) = tokensFrom [] rest := by
  induction n with
  | zero => rfl
  | succ n ih =>
    rw [List.replicate_succ, List.cons_append, tokensFrom_blank (by decide), ih]
    rfl

theorem tokensFrom_render (indentWidth : Nat) (line : Line) (rest : List Char) :
    tokensFrom [] ((line.render indentWidth).toList ++ rest) =
      tokens line.text ++ tokensFrom [] rest := by
  have hend : isBlank '\n' = true := by decide
  unfold Line.render
  split
  · rename_i hempty
    rw [hempty]
    exact tokensFrom_blank hend [] rest
  · rw [String.toList_append, String.toList_append, String.toList_ofList, List.append_assoc,
      List.append_assoc, tokensFrom_spaces]
    exact tokensFrom_append hend [] line.text.toList rest

theorem tokens_renderLines (indentWidth : Nat) (lines : List Line) :
    tokens (renderLines indentWidth lines) = lines.flatMap fun line => tokens line.text := by
  unfold tokens renderLines
  induction lines with
  | nil => rfl
  | cons line rest ih =>
    rw [List.map_cons, String.join_cons, String.toList_append, tokensFrom_render, ih]
    rfl

end InteropGen.Reading

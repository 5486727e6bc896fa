import Mathlib.Data.List.Basic
import InteropGen.Proofs.Reading.Tokens
import InteropGen.Settings.Basic

/-!
# Loops read from their text

The tokens of code are read as statements: loops of the form `for (int i = 0; i < 3; ++i)` with a
block, and statements that end in a semicolon. Running them gives every such statement that is
reached, with the values of the counters around it.

* `State.step` reads one token, `read?` a whole text;
* `header?_countUpHeader` — the header of a counted loop is read as one;
* `Statement.run` — what is reached, unless a counter is declared again inside its own loop.
-/

set_option autoImplicit false

namespace InteropGen.Reading

open CSharp

/-! ## Statements -/

inductive Statement where
  /-- A statement without a block, its semicolon left out. -/
  | simple (tokens : List Token)
  /-- A loop whose counter runs from zero while it is below the bound. -/
  | loop (counter : List Char) (bound : Nat) (body : List Statement)

/-- The number that a numeral of type `int` spells. -/
def numeral? (chars : List Char) : Option Nat :=
  if chars ≠ [] ∧ chars.all Char.isDigit ∧ Nat.ofDigitChars 10 chars 0 < 2 ^ 31 then
    some (Nat.ofDigitChars 10 chars 0)
  else none

/-- A word that can be declared. -/
def isName (chars : List Char) : Bool :=
  isIdentifier (String.ofList chars) && decide (String.ofList chars ∉ keywords)

/-- The counter and the bound of a loop. The counter is declared as an `int`, starts at zero, is
compared with the bound and incremented, under the same name each time. -/
def header? : List Token → Option (List Char × Nat)
  | [.word keyword, .symbol '(', .word type, .word i, .symbol '=', .word zero, .symbol ';',
      .word compared, .symbol '<', .word bound, .symbol ';', .increment, .word stepped,
      .symbol ')'] =>
    if keyword = "for".toList ∧ type = "int".toList ∧ isName i ∧ zero = ['0'] ∧ compared = i ∧
        stepped = i then
      (numeral? bound).map fun n => (i, n)
    else none
  | _ => none

/-- An open loop, with the statements before it in the block around it. -/
structure Frame where
  counter : List Char
  bound : Nat
  before : List Statement

/-- A reader between two tokens. -/
structure State where
  /-- The open loops, the innermost first. -/
  frames : List Frame
  /-- The statements of the innermost block. -/
  done : List Statement
  /-- The tokens of the current statement or header. -/
  pending : List Token

/-- Every parenthesis is closed. -/
def isClosed (ts : List Token) : Bool :=
  ts.count (.symbol '(') ≤ ts.count (.symbol ')')

/-- One token. -/
def State.step (s : State) : Token → Option State
  | .symbol '\x7b' =>
    (header? s.pending).map fun (i, bound) => ⟨⟨i, bound, s.done⟩ :: s.frames, [], []⟩
  | .symbol '\x7d' =>
    match s.pending, s.frames with
    | [], frame :: frames =>
      some ⟨frames, frame.before ++ [.loop frame.counter frame.bound s.done], []⟩
    | _, _ => none
  | .symbol ';' =>
    if isClosed s.pending then some ⟨s.frames, s.done ++ [.simple s.pending], []⟩
    else some { s with pending := s.pending ++ [.symbol ';'] }
  | t => some { s with pending := s.pending ++ [t] }

/-- Nothing is open. -/
def State.result? : State → Option (List Statement)
  | ⟨[], done, []⟩ => some done
  | _ => none

/-- The statements of a text. -/
def read? (text : String) : Option (List Statement) := do
  (← (tokens text).foldlM State.step ⟨[], [], []⟩).result?

/-! ## Running them -/

/-- The counters in scope with their values, the outermost first. -/
abbrev Counters := List (List Char × Nat)

mutual

/-- The statements without a block that are reached, each with the counters around it. -/
def Statement.run (env : Counters) : Statement → Option (List (Counters × List Token))
  | .simple ts => some [(env, ts)]
  | .loop i bound body =>
    if i ∈ env.map (·.1) then none
    else ((List.range bound).mapM fun n => runAll (env ++ [(i, n)]) body).map List.flatten

def runAll (env : Counters) : List Statement → Option (List (Counters × List Token))
  | [] => some []
  | s :: rest => do return (← s.run env) ++ (← runAll env rest)

end

/-! ## Counters and their headers -/

/-- The name of a counter. -/
def counterWord (stem : String) (depth : Nat) : List Char :=
  ((Local.counter depth).name stem).toList

theorem counterWord_eq (stem : String) (depth : Nat) :
    counterWord stem depth = stem.toList ++ Nat.toDigits 10 depth := by
  simp [counterWord, Local.name]

theorem counterWord_injective (stem : String) {a b : Nat}
    (h : counterWord stem a = counterWord stem b) : a = b := by
  rw [counterWord_eq, counterWord_eq] at h
  have hdigits := List.append_cancel_left h
  rw [← Nat.ofDigitChars_ten_toDigits (n := a), hdigits, Nat.ofDigitChars_ten_toDigits]

theorem isWordChar_of_isDigit {c : Char} (h : c.isDigit = true) : isWordChar c = true := by
  simp [isWordChar, Char.isAlphanum, h]

theorem isWordChar_digits (n : Nat) : ∀ c ∈ Nat.toDigits 10 n, isWordChar c = true := fun _ hc =>
  isWordChar_of_isDigit (Nat.isDigit_of_mem_toDigits (by decide) (by decide) hc)

theorem isWordChar_of_isIdentifier {text : String} (h : isIdentifier text = true) :
    ∀ c ∈ text.toList, isWordChar c = true := by
  unfold isIdentifier at h
  split at h
  · cases h
  · rename_i c rest htext
    simp only [Bool.and_eq_true, List.all_eq_true] at h
    rw [htext]
    refine List.forall_mem_cons.mpr ⟨?_, h.2⟩
    have hc := h.1
    simp only [Bool.or_eq_true] at hc
    rcases hc with hc | hc
    · simp [isWordChar, Char.isAlphanum, hc]
    · simp [isWordChar, hc]

theorem isWordChar_counterWord {stem : String} (h : isIdentifier stem = true) (depth : Nat) :
    ∀ c ∈ counterWord stem depth, isWordChar c = true := by
  rw [counterWord_eq]
  intro c hc
  rcases List.mem_append.mp hc with hc | hc
  · exact isWordChar_of_isIdentifier h c hc
  · exact isWordChar_digits depth c hc

theorem numeral?_toDigits {n : Nat} (h : n < 2 ^ 31) : numeral? (Nat.toDigits 10 n) = some n := by
  have hvalue : Nat.ofDigitChars 10 (Nat.toDigits 10 n) 0 = n :=
    Nat.ofDigitChars_toDigits (by decide) (by decide)
  have hdigits : (Nat.toDigits 10 n).all Char.isDigit = true :=
    List.all_eq_true.mpr fun _ hc => Nat.isDigit_of_mem_toDigits (by decide) (by decide) hc
  rw [numeral?, if_pos ⟨Nat.toDigits_ne_nil, hdigits, by rwa [hvalue]⟩, hvalue]

theorem not_isAlpha_of_isDigit {c : Char} (h : c.isDigit = true) : c.isAlpha = false := by
  have hcode : 48 ≤ c.toNat ∧ c.toNat ≤ 57 := Char.isDigit_iff_toNat.mp h
  have hranges : c.isAlpha = (decide (65 ≤ c.toNat ∧ c.toNat ≤ 90) ||
      (decide (97 ≤ c.toNat) && decide (c.toNat ≤ 122))) := rfl
  rw [hranges]
  simp
  omega

/-- An identifier does not begin with a digit. -/
theorem not_isDigit_of_isIdentifier {text : String} (h : isIdentifier text = true) :
    ∀ c ∈ text.toList.head?, c.isDigit = false := by
  unfold isIdentifier at h
  split at h
  · cases h
  · rename_i first rest htext
    intro c hc
    rw [htext] at hc
    cases hc
    by_contra hdigit
    have hletter := not_isAlpha_of_isDigit (by simpa using hdigit)
    have hunderscore : first ≠ '_' := by
      rintro rfl
      exact hdigit (by decide)
    simp [hletter, hunderscore] at h

/-- A numeral is no name. -/
theorem isName_toDigits (n : Nat) : isName (Nat.toDigits 10 n) = false := by
  obtain ⟨c, rest, hdigits⟩ := List.exists_cons_of_ne_nil (Nat.toDigits_ne_nil (n := n) (b := 10))
  have hc : c.isDigit = true :=
    Nat.isDigit_of_mem_toDigits (by decide) (by decide) (hdigits ▸ List.mem_cons_self ..)
  by_contra hname
  have hidentifier : isIdentifier (String.ofList (Nat.toDigits 10 n)) = true := by
    simp only [isName, Bool.and_eq_true, Bool.not_eq_false] at hname
    exact hname.1
  have hhead := not_isDigit_of_isIdentifier hidentifier c (by simp [hdigits])
  rw [hhead] at hc
  cases hc

/-- No keyword ends in a digit. -/
theorem keywords_end_in_no_digit : ∀ k ∈ keywords, ∀ c ∈ k.toList.getLast?, c.isDigit = false := by
  simp [keywords]

theorem counterWord_not_keyword (stem : String) (depth : Nat) :
    String.ofList (counterWord stem depth) ∉ keywords := by
  have hne : Nat.toDigits 10 depth ≠ [] := Nat.toDigits_ne_nil
  intro hmem
  have hlast := keywords_end_in_no_digit _ hmem ((Nat.toDigits 10 depth).getLast hne)
  rw [String.toList_ofList, counterWord_eq, List.getLast?_append_of_ne_nil _ hne,
    List.getLast?_eq_some_getLast hne] at hlast
  have hdigit := Nat.isDigit_of_mem_toDigits (by decide) (by decide) (List.getLast_mem hne)
  exact absurd (hlast rfl) (by simp [hdigit])

theorem isIdentifier_append {first rest : String} (hfirst : isIdentifier first = true)
    (hrest : ∀ c ∈ rest.toList, isWordChar c = true) : isIdentifier (first ++ rest) = true := by
  have hword : ∀ c ∈ rest.toList, (c.isAlphanum || decide (c = '_')) = true := hrest
  unfold isIdentifier at hfirst ⊢
  rw [String.toList_append]
  split at hfirst
  · cases hfirst
  · rename_i c more htext
    rw [htext]
    simp only [Bool.and_eq_true, List.cons_append, List.all_append, List.all_eq_true] at hfirst ⊢
    exact ⟨hfirst.1, hfirst.2, hword⟩

theorem isName_counterWord {stem : String} (h : isIdentifier stem = true) (depth : Nat) :
    isName (counterWord stem depth) = true := by
  have hkeyword := counterWord_not_keyword stem depth
  have hidentifier : isIdentifier (String.ofList (counterWord stem depth)) = true := by
    rw [counterWord_eq, String.ofList_append, String.ofList_toList]
    refine isIdentifier_append h fun c hc => isWordChar_digits depth c ?_
    rwa [String.toList_ofList] at hc
  simp [isName, hidentifier, hkeyword]

theorem counterWord_ne_nil (stem : String) (depth : Nat) : counterWord stem depth ≠ [] := by
  rw [counterWord_eq]
  exact List.append_ne_nil_of_right_ne_nil _ Nat.toDigits_ne_nil

theorem toList_countUpHeader (stem : String) (depth d : Nat) :
    (countUpHeader stem depth (.nat d)).toList =
      "for (int ".toList ++ (counterWord stem depth ++ ' ' :: ("= 0; ".toList ++
        (counterWord stem depth ++ ' ' :: ("< ".toList ++
          (Nat.toDigits 10 d ++ ';' :: (" ++".toList ++
            (counterWord stem depth ++ ')' :: []))))))) := by
  delta countUpHeader
  simp [counterWord, Expr.text, String.toList_append]

/-- The tokens of the header of a counted loop. -/
theorem tokens_countUpHeader {stem : String} (h : isIdentifier stem = true) (depth d : Nat) :
    tokens (countUpHeader stem depth (.nat d)) =
      [.word "for".toList, .symbol '(', .word "int".toList, .word (counterWord stem depth),
        .symbol '=', .word ['0'], .symbol ';', .word (counterWord stem depth), .symbol '<',
        .word (Nat.toDigits 10 d), .symbol ';', .increment, .word (counterWord stem depth),
        .symbol ')'] := by
  have hword := isWordChar_counterWord h depth
  have hne := counterWord_ne_nil stem depth
  have hdigits := isWordChar_digits d
  -- the text between the names is cut by computation
  have hfor : ∀ rest, tokensFrom [] ("for (int ".toList ++ rest) =
      .word "for".toList :: .symbol '(' :: .word "int".toList :: tokensFrom [] rest := fun _ => rfl
  have hzero : ∀ rest, tokensFrom [] (' ' :: ("= 0; ".toList ++ rest)) =
      .symbol '=' :: .word ['0'] :: .symbol ';' :: tokensFrom [] rest := fun _ => rfl
  have hless : ∀ rest, tokensFrom [] (' ' :: ("< ".toList ++ rest)) =
      .symbol '<' :: tokensFrom [] rest := fun _ => rfl
  have hnext : ∀ rest, tokensFrom [] (';' :: (" ++".toList ++ rest)) =
      .symbol ';' :: .increment :: tokensFrom [] rest := fun _ => rfl
  rw [tokens, toList_countUpHeader, hfor, tokensFrom_name hword hne (by decide) (by decide), hzero,
    tokensFrom_name hword hne (by decide) (by decide), hless,
    tokensFrom_name hdigits Nat.toDigits_ne_nil (by decide) (by decide), hnext,
    tokensFrom_name hword hne (by decide) (by decide)]
  rfl

theorem header?_countUpHeader {stem : String} (h : isIdentifier stem = true) (depth : Nat) {d : Nat}
    (hd : d < 2 ^ 31) :
    header? (tokens (countUpHeader stem depth (.nat d))) = some (counterWord stem depth, d) := by
  rw [tokens_countUpHeader h]
  simp [header?, isName_counterWord h, numeral?_toDigits hd]

/-! ## Reading what is printed -/

/-- A text that is one statement without a block. -/
structure IsSimple (text : String) (ts : List Token) : Prop where
  tokens_eq : tokens text = ts ++ [.symbol ';']
  plain : ∀ t ∈ ts, t ≠ .symbol '\x7b' ∧ t ≠ .symbol '\x7d' ∧ t ≠ .symbol ';'
  closed : isClosed ts = true

/-- Tokens within a statement are kept. -/
theorem foldlM_plain (s : State) {ts : List Token}
    (h : ∀ t ∈ ts, t ≠ .symbol '\x7b' ∧ t ≠ .symbol '\x7d' ∧ t ≠ .symbol ';') :
    ts.foldlM State.step s = some { s with pending := s.pending ++ ts } := by
  induction ts generalizing s with
  | nil => simp
  | cons t rest ih =>
    obtain ⟨⟨hopen, hclose, hend⟩, hrest⟩ := List.forall_mem_cons.mp h
    have hstep : s.step t = some { s with pending := s.pending ++ [t] } := by
      unfold State.step
      split <;> simp_all
    rw [List.foldlM_cons, hstep, Option.bind_eq_bind, Option.bind_some, ih _ hrest]
    simp

theorem foldlM_simple (frames : List Frame) (done : List Statement) {text : String}
    {ts : List Token} (h : IsSimple text ts) :
    (tokens text).foldlM State.step ⟨frames, done, []⟩ =
      some ⟨frames, done ++ [.simple ts], []⟩ := by
  rw [h.tokens_eq, List.foldlM_append, foldlM_plain _ h.plain]
  simp [State.step, h.closed]

/-- A header and the brace after it open a loop. -/
theorem foldlM_open (frames : List Frame) (done : List Statement) {stem : String}
    (h : isIdentifier stem = true) (depth : Nat) {d : Nat} (hd : d < 2 ^ 31) :
    (tokens (countUpHeader stem depth (.nat d)) ++ [Token.symbol '\x7b']).foldlM State.step
        ⟨frames, done, []⟩ =
      some ⟨⟨counterWord stem depth, d, done⟩ :: frames, [], []⟩ := by
  have hheader := header?_countUpHeader h depth hd
  have hpending : (tokens (countUpHeader stem depth (.nat d))).foldlM State.step
      ⟨frames, done, []⟩ =
        some ⟨frames, done, tokens (countUpHeader stem depth (.nat d))⟩ := by
    rw [tokens_countUpHeader h]
    simp [State.step, isClosed]
  rw [List.foldlM_append, hpending]
  simp [State.step, hheader]

end InteropGen.Reading

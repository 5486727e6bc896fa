import Mathlib.Algebra.GroupWithZero.Nat
import InteropGen.Proofs.Reading.Loops

/-!
# Sums read from their text

Expressions over counters and numerals with `+`, `*` and parentheses are evaluated from their
tokens, in the order in which they are written: products first, then sums from the left. Every
numeral, product and partial sum must be an `int`; there is no value otherwise.

* `Calculation.step` — one token;
* `evaluate?_sum` — the value of printed terms with plus signs between them.
-/

set_option autoImplicit false

namespace InteropGen.Reading

open CSharp

/-! ## Evaluation -/

/-- A number that an `int` holds. -/
def int? (n : Nat) : Option Nat :=
  if n < 2 ^ 31 then some n else none

/-- What has been read between two parentheses: the sum of the terms before the current one, and the
product of the factors of the current term before the last one. -/
structure Level where
  sum : Option Nat
  product : Option Nat

def multiplied : Option Nat → Nat → Option Nat
  | none, v => some v
  | some p, v => int? (p * v)

def added : Option Nat → Nat → Option Nat
  | none, v => some v
  | some s, v => int? (s + v)

/-- The value at the end, after the last factor. -/
def Level.total (l : Level) (v : Nat) : Option Nat := do
  added l.sum (← multiplied l.product v)

/-- An evaluation between two tokens. -/
structure Calculation where
  /-- The parentheses that are open, the innermost first. -/
  outer : List Level
  level : Level
  /-- The last factor, once it has been read. -/
  operand : Option Nat

/-- The value of a name or a numeral. -/
def value? (env : Counters) (w : List Char) : Option Nat :=
  if isName w then (env.find? (·.1 = w)).map (·.2) else numeral? w

/-- One token. -/
def Calculation.step (env : Counters) (c : Calculation) (t : Token) : Option Calculation :=
  match t, c.operand with
  | .word w, none => (value? env w).map fun v => { c with operand := some v }
  | .symbol '(', none => some ⟨c.level :: c.outer, ⟨none, none⟩, none⟩
  | .symbol '*', some v => (multiplied c.level.product v).map fun p =>
    ⟨c.outer, ⟨c.level.sum, some p⟩, none⟩
  | .symbol '+', some v => (c.level.total v).map fun s => ⟨c.outer, ⟨some s, none⟩, none⟩
  | .symbol ')', some v =>
    match c.outer with
    | l :: outer => (c.level.total v).map fun s => ⟨outer, l, some s⟩
    | [] => none
  | _, _ => none

/-- The value of a complete expression. -/
def Calculation.result? : Calculation → Option Nat
  | ⟨[], level, some v⟩ => level.total v
  | _ => none

/-- The value that some more tokens lead to. -/
def Calculation.finish (env : Counters) (c : Calculation) (ts : List Token) : Option Nat :=
  (ts.foldlM (Calculation.step env) c).bind Calculation.result?

/-- The value of an expression, with the counters that are in scope. -/
def evaluate? (env : Counters) (text : String) : Option Nat :=
  Calculation.finish env ⟨[], ⟨none, none⟩, none⟩ (tokens text)

theorem Calculation.finish_append {env : Counters} {c c' : Calculation} {ts : List Token}
    (h : ts.foldlM (Calculation.step env) c = some c') (rest : List Token) :
    c.finish env (ts ++ rest) = c'.finish env rest := by
  rw [Calculation.finish, List.foldlM_append, h]
  rfl

/-! ## Terms -/

/-- The text is an operand of the given value, wherever it stands. -/
def HasValue (env : Counters) (text : String) (v : Nat) : Prop :=
  ∀ outer level, (tokens text).foldlM (Calculation.step env) ⟨outer, level, none⟩ =
    some ⟨outer, level, some v⟩

theorem int?_of_lt {n : Nat} (h : n < 2 ^ 31) : int? n = some n :=
  if_pos h

theorem added_of_lt {sum : Option Nat} {v : Nat} (h : sum.getD 0 + v < 2 ^ 31) :
    added sum v = some (sum.getD 0 + v) := by
  cases sum with
  | none => simp [added]
  | some s => exact int?_of_lt h

/-- Terms with plus signs between them. -/
theorem tokens_intercalate (first : String) (rest : List String) :
    tokens (" + ".intercalate (first :: rest)) =
      tokens first ++ rest.flatMap fun term => .symbol '+' :: tokens term := by
  induction rest generalizing first with
  | nil => simp
  | cons second rest ih =>
    have hplus : ∀ chars,
        tokensFrom [] ('+' :: ' ' :: chars) = .symbol '+' :: tokensFrom [] chars := fun _ => rfl
    have htext : (" + ".intercalate (first :: second :: rest)).toList =
        first.toList ++ ' ' :: '+' :: ' ' :: (" + ".intercalate (second :: rest)).toList := by
      rw [String.intercalate_cons_cons, String.toList_append, String.toList_append]
      simp
    rw [tokens, htext, tokensFrom_append (by decide), hplus, List.flatMap_cons, List.cons_append,
      ← ih second]
    rfl

/-- A sum of operands that stays in the range of `int` is evaluated from the left. -/
theorem finish_sum {env : Counters} {first : String} {rest : List String} {v : Nat}
    {values : List Nat} (hfirst : HasValue env first v)
    (hrest : List.Forall₂ (HasValue env) rest values) (sum : Option Nat)
    (hrange : sum.getD 0 + (v + values.sum) < 2 ^ 31) :
    Calculation.finish env ⟨[], ⟨sum, none⟩, none⟩
        (tokens first ++ rest.flatMap fun term => .symbol '+' :: tokens term) =
      some (sum.getD 0 + (v + values.sum)) := by
  have hterm : added sum v = some (sum.getD 0 + v) := added_of_lt (by omega)
  induction hrest generalizing first v sum with
  | nil =>
    rw [Calculation.finish_append (hfirst [] ⟨sum, none⟩)]
    exact hterm
  | @cons second w rest values hsecond hrest ih =>
    rw [List.sum_cons] at hrange
    have hplus : [Token.symbol '+'].foldlM (Calculation.step env) ⟨[], ⟨sum, none⟩, some v⟩ =
        some ⟨[], ⟨some (sum.getD 0 + v), none⟩, none⟩ := by
      simp [Calculation.step, Level.total, multiplied, hterm]
    have hnext := ih hsecond (some (sum.getD 0 + v)) (by simp; omega) (added_of_lt (by simp; omega))
    calc Calculation.finish env ⟨[], ⟨sum, none⟩, none⟩ _
      _ = Calculation.finish env ⟨[], ⟨sum, none⟩, some v⟩ ([.symbol '+'] ++ (tokens second ++
            rest.flatMap fun term => .symbol '+' :: tokens term)) :=
        Calculation.finish_append (hfirst [] ⟨sum, none⟩) _
      _ = Calculation.finish env ⟨[], ⟨some (sum.getD 0 + v), none⟩, none⟩ (tokens second ++
            rest.flatMap fun term => .symbol '+' :: tokens term) :=
        Calculation.finish_append hplus _
      _ = some (sum.getD 0 + v + (w + values.sum)) := hnext
      _ = some (sum.getD 0 + (v + (w :: values).sum)) := by
        rw [List.sum_cons, Nat.add_assoc]

theorem evaluate?_sum {env : Counters} {terms : List String} {values : List Nat}
    (h : List.Forall₂ (HasValue env) terms values) (hne : terms ≠ [])
    (hrange : values.sum < 2 ^ 31) :
    evaluate? env (" + ".intercalate terms) = some values.sum := by
  cases h with
  | nil => exact absurd rfl hne
  | cons hfirst hrest =>
    rw [List.sum_cons] at hrange
    rw [evaluate?, tokens_intercalate, finish_sum hfirst hrest none (by simpa using hrange)]
    simp

end InteropGen.Reading

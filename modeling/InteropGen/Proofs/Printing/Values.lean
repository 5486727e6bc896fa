import InteropGen.Proofs.Machine.Run
import InteropGen.Proofs.Printing.Trees

/-!
# The value of a printed expression

`Expr.eval` follows the tree that a text was printed from. Here the tree that the text is read as
has a value of its own, made by the operators of the language; sums are made two by two, from the
left. Where names mean what they are printed for, the two values are the same.

* `Tree.value` — the value of what was read, given what names mean;
* `Expr.value_tree`, `Expr.readBack_tree` — it is the value of the expression;
* `sequenceOffset_text` — the offset of a sequence element, in which the product is made first.
-/

set_option autoImplicit false

namespace InteropGen

open CSharp Reading

/-- What names stand for, and the values of what no operator makes. -/
structure Meaning where
  type? : Tree → Option Ty
  function? : Tree → Option Function
  primary : Tree → CSharp.State → Option (Value × CSharp.State)

namespace Reading

/-- The result of an operator on two values. -/
def Operator.operate? : Operator → Value → Value → Option Value
  | times, a, b => Machine.operate? .times a b
  | plus, .int a, .int b => some (.int (int32 (a + b)))
  | equal, a, b => Machine.operate? .equal a b
  | unequal, a, b => Machine.operate? .unequal a b
  | _, _, _ => none

mutual

/-- The value of an expression that was read. -/
def Tree.value (m : Machine) (M : Meaning) : Tree → CSharp.State → Option (Value × CSharp.State)
  | .group x, st => x.value m M st
  | .cast type x, st => do
    let type ← M.type? type
    let (v, st) ← x.value m M st
    (m.cast? type v).map fun v => (v, st)
  | .binary .coalesce a b, st => do
    let (v, st) ← a.value m M st
    match v with
    | .null => b.value m M st
    | v => some (v, st)
  | .binary op a b, st => do
    let (v, st) ← a.value m M st
    let (w, st) ← b.value m M st
    (op.operate? v w).map fun v => (v, st)
  | .conditional c a b, st => do
    let (v, st) ← c.value m M st
    match v with
    | .bool true => a.value m M st
    | .bool false => b.value m M st
    | _ => none
  | .apply .square base (i :: more), st => do
    let (v, st) ← base.value m M st
    let (indices, st) ← values m M (i :: more) st
    let indices ← indices.mapM Value.index?
    (v.item? indices).map fun item => (item, st)
  | .apply .round (.word "unchecked") [x], st => x.value m M st
  | .apply .round head arguments, st =>
    match M.function? head with
    | some f => do
      let (arguments, st) ← values m M arguments st
      m.call? f arguments st
    | none => M.primary (.apply .round head arguments) st
  | x, st => M.primary x st

/-- The values of arguments, from left to right. -/
def values (m : Machine) (M : Meaning) :
    List Tree → CSharp.State → Option (List Value × CSharp.State)
  | [], st => some ([], st)
  | x :: xs, st => do
    let (v, st) ← x.value m M st
    let (rest, st) ← values m M xs st
    some (v :: rest, st)

end

end Reading

namespace CSharp

section
variable (m : Machine) (lib : Library) (env : Env) (stem : String) (M : Meaning)

/-- What is read for an expression has its value. -/
def Expr.Agrees (e : Expr) : Prop :=
  ∀ st, (e.tree stem).value m M st = e.eval m lib env st

/-- The value of an expression, if it has one, is an `int`. -/
def Expr.IsInt (e : Expr) : Prop :=
  ∀ st v st', e.eval m lib env st = some (v, st') → ∃ n, InInt32 n ∧ v = .int n

mutual

/-- The names in an expression mean what they are printed for. -/
@[simp] def Expr.Means : Expr → Prop
  | .paren e => e.Means
  | .cast type e => M.type? type.tree = some type ∧ e.Means
  | .uncheckedCast type e => M.type? type.tree = some type ∧ e.Means
  | .binary _ left right => left.Means ∧ right.Means
  | .sum terms => terms ≠ [] ∧ AllMean terms ∧ ∀ e ∈ terms.head?, e.IsInt m lib env
  | .conditional condition whenTrue whenFalse =>
    condition.Means ∧ whenTrue.Means ∧ whenFalse.Means
  | .index base indices => indices ≠ [] ∧ base.Means ∧ AllMean indices
  | .call f arguments => M.function? f.tree = some f ∧ AllMean arguments
  | e => e.Agrees m lib env stem M

@[simp] def AllMean : List Expr → Prop
  | [] => True
  | e :: es => e.Means ∧ AllMean es

end

theorem Function.tree_ne_word (f : Function) (w : String) : f.tree ≠ .word w := by
  cases f with
  | ptrToStructure type | sizeOf type | releaseNative type => nofun
  | stringToHGlobal encoding | ptrToString encoding => cases encoding <;> nofun
  | read word | write word => cases word <;> nofun
  | _ => nofun

variable {m lib env stem M}

/-- An `int` with the state that it was found in. -/
def int? : Value × CSharp.State → Option (Int × CSharp.State)
  | (.int n, st) => some (n, st)
  | _ => none

/-- Terms added two by two, behind what makes an `int`, make the sum of their values. -/
theorem value_foldl (es : List Expr) (hes : ∀ e ∈ es, e.Agrees m lib env stem M) (x : Tree)
    (before : State → Option (Int × State))
    (hx : ∀ st, x.value m M st = (before st).map fun p => (.int p.1, p.2)) (st : State) :
    ((trees stem es).foldl (.binary .plus) x).value m M st =
      (before st).bind fun p => (evalAll m lib env es p.2).bind fun q =>
        (Value.sum? p.1 q.1).map fun v => (v, q.2) := by
  induction es generalizing x before st with
  | nil =>
    rw [trees, List.foldl_nil, hx]
    cases before st <;> rfl
  | cons e es ih =>
    obtain ⟨he, hrest⟩ := List.forall_mem_cons.mp hes
    have hnext : ∀ st, (Tree.binary .plus x (e.tree stem)).value m M st =
        ((before st).bind fun p => ((e.eval m lib env p.2).bind int?).map fun q =>
          (int32 (p.1 + q.1), q.2)).map fun p => (.int p.1, p.2) := by
      intro st
      rw [Tree.value, hx st]
      · cases before st with
        | none => rfl
        | some p =>
          simp only [Option.map_some, Option.bind_eq_bind, Option.bind_some, he p.2]
          cases e.eval m lib env p.2 with
          | none => rfl
          | some q =>
            obtain ⟨v, st'⟩ := q
            cases v <;> rfl
      · nofun
    rw [trees, List.foldl_cons, ih hrest _ _ hnext]
    cases before st with
    | none => rfl
    | some p =>
      simp only [Option.bind_eq_bind, Option.bind_some, evalAll]
      cases e.eval m lib env p.2 with
      | none => rfl
      | some q =>
        obtain ⟨v, st'⟩ := q
        cases hall : evalAll m lib env es st' with
        | none => cases v <;> simp [int?, hall]
        | some r => cases v <;> simp [int?, hall, Value.sum?]

mutual

theorem Expr.value_tree (e : Expr) (h : e.Means m lib env stem M) : e.Agrees m lib env stem M := by
  intro st
  cases e with
  | paren e =>
    rw [Expr.tree, Tree.value, Expr.eval]
    exact e.value_tree h st
  | cast type e =>
    rw [Expr.tree, Tree.value, Expr.eval, h.1, e.value_tree h.2 st]
    rfl
  | uncheckedCast type e =>
    rw [Expr.tree, Tree.value, Tree.value, Expr.eval, h.1, e.value_tree h.2 st]
    rfl
  | binary op left right =>
    have hleft := left.value_tree h.1
    have hright := right.value_tree h.2
    cases op with
    | coalesce =>
      rw [Expr.tree, BinaryOp.operator, Tree.value, Expr.eval, hleft st]
      cases left.eval m lib env st with
      | none => rfl
      | some p =>
        obtain ⟨v, st'⟩ := p
        cases v with
        | null => exact hright st'
        | _ => rfl
    | _ =>
      rw [Expr.tree, BinaryOp.operator, Tree.value, Expr.eval, hleft st]
      · simp only [hright _]
        rfl
      all_goals nofun
  | sum terms =>
    obtain ⟨hne, hterms, hint⟩ := h
    cases terms with
    | nil => exact absurd rfl hne
    | cons first rest =>
      have hfirst := first.value_tree hterms.1
      have hnumber := hint first rfl
      have hbefore : ∀ st, (first.tree stem).value m M st =
          ((first.eval m lib env st).bind int?).map fun p => (.int p.1, p.2) := by
        intro st
        rw [hfirst st]
        cases heval : first.eval m lib env st with
        | none => rfl
        | some p =>
          obtain ⟨v, st'⟩ := p
          obtain ⟨n, -, rfl⟩ := hnumber st v st' heval
          rfl
      have hsum := value_foldl rest (agree_all rest hterms.2) (first.tree stem) _ hbefore st
      rw [Expr.tree, trees, Tree.sum, hsum, Expr.eval, evalAll]
      cases heval : first.eval m lib env st with
      | none => rfl
      | some p =>
        obtain ⟨v, st'⟩ := p
        obtain ⟨n, hrange, rfl⟩ := hnumber st v st' heval
        simp only [Option.bind_eq_bind, Option.bind_some, int?]
        cases evalAll m lib env rest st' with
        | none => rfl
        | some q => simp [Value.sum?, int32_eq_self hrange]
  | conditional c a b =>
    have ha := a.value_tree h.2.1
    have hb := b.value_tree h.2.2
    rw [Expr.tree, Tree.value, Expr.eval, c.value_tree h.1 st]
    cases c.eval m lib env st with
    | none => rfl
    | some p =>
      obtain ⟨v, st'⟩ := p
      cases v with
      | bool whether =>
        cases whether with
        | true => exact ha st'
        | false => exact hb st'
      | _ => rfl
  | index base indices =>
    obtain ⟨hne, hbase, hindices⟩ := h
    have hall := values_trees indices hindices
    cases indices with
    | nil => exact absurd rfl hne
    | cons i more =>
      rw [trees] at hall
      rw [Expr.tree, trees, Tree.value, Expr.eval, base.value_tree hbase st]
      simp only [hall _]
  | call f arguments =>
    have hall := values_trees arguments h.2
    rw [Expr.tree, Tree.value, Expr.eval, h.1]
    · simp only [hall _]
    · intro x hword
      exact absurd hword (f.tree_ne_word _)
  | _ => exact h st

theorem values_trees (es : List Expr) (h : AllMean m lib env stem M es) (st : State) :
    values m M (trees stem es) st = evalAll m lib env es st := by
  cases es with
  | nil => rfl
  | cons e es =>
    have hrest := values_trees es h.2
    rw [trees, values, evalAll, e.value_tree h.1 st]
    simp only [hrest _]

theorem agree_all (es : List Expr) (h : AllMean m lib env stem M es) :
    ∀ e ∈ es, e.Agrees m lib env stem M := by
  cases es with
  | nil => nofun
  | cons e es => exact List.forall_mem_cons.mpr ⟨e.value_tree h.1, agree_all es h.2⟩

end

/-- The text of the expression is read as something with the value of the expression. -/
def Expr.ReadBack (stem : String) (e : Expr) (x : Tree) : Prop :=
  readTree? (e.text stem) = some x ∧
    ∀ m lib env M, e.Means m lib env stem M → ∀ st, x.value m M st = e.eval m lib env st

theorem Expr.readBack_tree (hstem : isIdentifier stem = true) (e : Expr) (hgrouped : e.Grouped)
    (hspells : e.Spells Spelling.Unreserved) : e.ReadBack stem (e.tree stem) :=
  ⟨e.readTree?_text hstem hgrouped hspells, fun _ _ _ _ hmeans => e.value_tree hmeans⟩

/-- The offset of a sequence element is printed without parentheses. It is read with the product made
before the sum, and both wrap around. -/
theorem sequenceOffset_text (hstem : isIdentifier stem = true) (depth : Nat) :
    ∃ x, readTree? ((sequenceOffset (.var (.counter depth))).text stem) = some x ∧
      ∀ (m : Machine) (M : Meaning) (st : State) (k size : Int),
        M.function? (.word "sizeof") = none →
        M.primary (Constant.tree .sizeOfInt) st = some (.int 4, st) →
        M.primary (.word ((Local.counter depth).name stem)) st = some (.int k, st) →
        M.primary (.word (Local.size.name stem)) st = some (.int size, st) →
        x.value m M st = some (.int (int32 (4 + int32 (k * size))), st) := by
  have hgrouped : (sequenceOffset (.var (.counter depth))).Grouped := by
    simp [sequenceOffset, Expr.precedence, BinaryOp.operator, Operator.level, Operator.left,
      Operator.right]
  refine ⟨_, Expr.readTree?_text hstem _ hgrouped (by simp [sequenceOffset]), ?_⟩
  intro m M st k size hfunction hheader hcounter hsize
  have hconstant : (Constant.tree .sizeOfInt).value m M st = some (.int 4, st) := by
    simpa [Constant.tree, Tree.value, hfunction] using hheader
  simp [sequenceOffset, Expr.tree, trees, Tree.sum, BinaryOp.operator, Tree.value,
    Operator.operate?, Machine.operate?, hconstant, hcounter, hsize]

end

end CSharp

end InteropGen

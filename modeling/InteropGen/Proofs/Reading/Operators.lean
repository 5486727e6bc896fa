import InteropGen.Proofs.Reading.Lexemes

/-!
# Expressions read by precedence

A reader for the expressions of C# that generated code is written in. It takes one lexeme after the
other and keeps what still waits for an operand on a stack; an operator completes what binds tighter
before it. What is read is a tree of the grammar, in which names and calls stand as they are
written.

* `Reader.step` reads one lexeme, `readTree?` a whole text;
* `ReadsAs p ls x` — the lexemes `ls` are read as `x` where an operand of precedence `p` may stand;
* `ReadsAs.binary`, `ReadsAs.cast` and so on — one law for each production of the grammar.
-/

set_option autoImplicit false

namespace InteropGen.Reading

inductive Bracket where
  | round | square | angle
  deriving DecidableEq, Repr

namespace Bracket

def opening : Bracket → String
  | round => "(" | square => "[" | angle => "<"

def closing : Bracket → String
  | round => ")" | square => "]" | angle => ">"

def ofOpening? : String → Option Bracket
  | "(" => some round | "[" => some square | "<" => some angle | _ => none

def ofClosing? : String → Option Bracket
  | ")" => some round | "]" => some square | ">" => some angle | _ => none

@[simp] theorem ofOpening?_opening (b : Bracket) : ofOpening? b.opening = some b := by
  cases b <;> rfl

@[simp] theorem ofClosing?_closing (b : Bracket) : ofClosing? b.closing = some b := by
  cases b <;> rfl

@[simp] theorem ofOpening?_closing (b : Bracket) : ofOpening? b.closing = none := by
  cases b <;> rfl

end Bracket

/-- The operators between two operands, with the assignment. -/
inductive Operator where
  | times | plus | equal | unequal | coalesce | assign
  deriving DecidableEq, Repr

namespace Operator

def text : Operator → String
  | times => "*" | plus => "+" | equal => "==" | unequal => "!=" | coalesce => "??" | assign => "="

def ofText? : String → Option Operator
  | "*" => some times | "+" => some plus | "==" => some equal | "!=" => some unequal
  | "??" => some coalesce | "=" => some assign | _ => none

/-- The precedence that an operator asks of the operand before it. -/
def left : Operator → Nat
  | times => 7 | plus => 6 | equal | unequal => 5 | coalesce => 5 | assign => 3

/-- The precedence that an operator asks of the operand behind it: one more than its own, unless it
groups to the right. -/
def right : Operator → Nat
  | times => 8 | plus => 7 | equal | unequal => 6 | coalesce => 4 | assign => 2

/-- The precedence of what an operator makes. -/
def level (op : Operator) : Nat :=
  min op.left op.right

@[simp] theorem ofText?_text (op : Operator) : ofText? op.text = some op := by
  cases op <;> rfl

theorem level_lt (op : Operator) : op.level < 8 := by
  cases op <;> decide

theorem level_lt_left (before op : Operator) :
    before.right ≤ op.level → before.level < op.left := by
  cases before <;> cases op <;> decide

end Operator

/-- Expressions and types by their grammar. -/
inductive Tree where
  /-- A name, a keyword or a literal. -/
  | word (text : String)
  | member (object : Tree) (name : String)
  /-- A call, an element of an array, or a type with arguments. -/
  | apply (bracket : Bracket) (head : Tree) (arguments : List Tree)
  /-- `new` and what is created. -/
  | creation (created : Tree)
  /-- `ref` and a place. -/
  | reference (place : Tree)
  | cast (type operand : Tree)
  /-- An expression in parentheses. -/
  | group (inner : Tree)
  | binary (op : Operator) (left right : Tree)
  | conditional (condition whenTrue whenFalse : Tree)

namespace Tree

/-- Whether a tree has the form of a type. -/
def isType : Tree → Bool
  | word _ => true
  | member object _ => object.isType
  | apply .angle head _ => head.isType
  | _ => false

/-- The type in parentheses that a tree may turn out to be. -/
def castType? : Tree → Option Tree
  | group x => if x.isType then some x else none
  | _ => none

theorem castType?_of_isType {x : Tree} (h : x.isType = true) : x.castType? = none := by
  cases x <;> first | rfl | cases h

end Tree

/-- What has begun and waits for an operand. -/
inductive Pending where
  | group
  | arguments (bracket : Bracket) (head : Tree) (before : List Tree)
  | member (object : Tree)
  | creation
  | reference
  | cast (type : Tree)
  | binary (op : Operator) (left : Tree)
  /-- Between `?` and `:`. -/
  | condition (condition : Tree)
  /-- Behind `:`. -/
  | branches (condition whenTrue : Tree)

namespace Pending

/-- The precedence of what an operand completes. Brackets, a point and `new` are not completed by an
operand alone. -/
def level : Pending → Nat
  | cast _ => 8
  | binary op _ => op.level
  | branches _ _ => 3
  | reference => 1
  | _ => 0

/-- The precedence that is asked of an operand. Behind a point there is none, and behind `new` only
a type. -/
def needs : Pending → Nat
  | member _ => 11
  | creation => 10
  | cast _ => 8
  | binary op _ => op.right
  | branches _ _ => 3
  | reference => 1
  | _ => 0

def complete (operand : Tree) : Pending → Tree
  | cast type => .cast type operand
  | binary op left => .binary op left operand
  | branches c whenTrue => .conditional c whenTrue operand
  | reference => .reference operand
  | _ => operand

theorem level_lt (f : Pending) : f.level < 9 := by
  cases f with
  | binary op left => exact op.level_lt.trans (by decide)
  | _ => simp [level]

/-- What stands before the left operand of an operator does not take it. -/
theorem level_lt_left (f : Pending) (op : Operator) (h : f.needs ≤ op.level) :
    f.level < op.left := by
  cases f with
  | binary before left => exact before.level_lt_left op h
  | _ =>
    cases op <;> revert h <;>
      simp [needs, level, Operator.level, Operator.left, Operator.right]

theorem level_le_needs (f : Pending) : f.level ≤ f.needs := by
  cases f with
  | binary op left => exact min_le_right _ _
  | _ => simp [needs, level]

end Pending

/-- Completes what is of at least the given precedence. -/
def close (least : Nat) : List Pending → Tree → List Pending × Tree
  | [], x => ([], x)
  | f :: stack, x =>
    if least ≤ f.level then close least stack (f.complete x) else (f :: stack, x)

/-- A reader between two lexemes: what waits, and the operand read last. -/
structure Reader where
  stack : List Pending
  operand : Option Tree

/-- A word that is an operand by itself. -/
def IsPlain (s : String) : Prop :=
  IsWord s ∧ s ≠ "new" ∧ s ≠ "ref"

instance (s : String) : Decidable (IsPlain s) :=
  inferInstanceAs (Decidable (_ ∧ _))

namespace Reader

/-- The end of a list of arguments. It completes a `new`, unless the arguments are those of the
type. -/
def applied (b : Bracket) (head : Tree) (arguments : List Tree) : List Pending → Reader
  | .creation :: stack =>
    if b = .angle then ⟨.creation :: stack, some (.apply b head arguments)⟩
    else ⟨stack, some (.creation (.apply b head arguments))⟩
  | stack => ⟨stack, some (.apply b head arguments)⟩

/-- A lexeme where an operand is due. -/
def start (stack : List Pending) (s : String) : Option Reader :=
  if IsWord s then
    match stack with
    | .member object :: stack => some ⟨stack, some (.member object s)⟩
    | stack =>
      if s = "new" then some ⟨.creation :: stack, none⟩
      else if s = "ref" then some ⟨.reference :: stack, none⟩
      else some ⟨stack, some (.word s)⟩
  else
    match stack with
    | .member _ :: _ => none
    | .arguments b head [] :: stack =>
      if s = "(" then some ⟨.group :: .arguments b head [] :: stack, none⟩
      else if s = b.closing then some (applied b head [] stack)
      else none
    | stack => if s = "(" then some ⟨.group :: stack, none⟩ else none

/-- A closing bracket. -/
def shut (b : Bracket) (stack : List Pending) (x : Tree) : Option Reader :=
  match close 1 stack x with
  | (.arguments opened head before :: stack, x) =>
    if opened = b then some (applied b head (before ++ [x]) stack) else none
  | (.group :: stack, x) => if b = .round then some ⟨stack, some (.group x)⟩ else none
  | _ => none

/-- A sign behind an operand. Angle brackets are those of type arguments: nothing is compared by
order. -/
def sign (stack : List Pending) (x : Tree) (s : String) : Option Reader :=
  if let some b := Bracket.ofOpening? s then some ⟨.arguments b x [] :: stack, none⟩
  else if let some b := Bracket.ofClosing? s then shut b stack x
  else if let some op := Operator.ofText? s then
    let (stack, x) := close op.left stack x
    some ⟨.binary op x :: stack, none⟩
  else
    match s with
    | "." => some ⟨.member x :: stack, none⟩
    | "," =>
      match close 1 stack x with
      | (.arguments b head before :: stack, x) =>
        some ⟨.arguments b head (before ++ [x]) :: stack, none⟩
      | _ => none
    | "?" =>
      let (stack, x) := close 4 stack x
      some ⟨.condition x :: stack, none⟩
    | ":" =>
      match close 3 stack x with
      | (.condition c :: stack, x) => some ⟨.branches c x :: stack, none⟩
      | _ => none
    | s =>
      match x with
      | .word w => if s.toList.head? = some '.' then some ⟨stack, some (.word (w ++ s))⟩ else none
      | _ => none

/-- One lexeme. A type in parentheses before another operand is a cast. -/
def step (r : Reader) (s : String) : Option Reader :=
  match r.operand with
  | none => start r.stack s
  | some x =>
    match x.castType? with
    | some type => if IsWord s ∨ s = "(" then start (.cast type :: r.stack) s else sign r.stack x s
    | none => sign r.stack x s

def run (ls : List String) (r : Reader) : Option Reader :=
  ls.foldlM step r

end Reader

/-- The tree of a text. -/
def readTree? (text : String) : Option Tree := do
  match ← Reader.run (lexemes text) ⟨[], none⟩ with
  | ⟨stack, some x⟩ =>
    match close 1 stack x with
    | ([], x) => some x
    | _ => none
  | _ => none

/-! ## Reading lexeme by lexeme -/

theorem close_of_lt {least : Nat} {stack : List Pending} (h : ∀ f ∈ stack.head?, f.level < least)
    (x : Tree) : close least stack x = (stack, x) := by
  cases stack with
  | nil => rfl
  | cons f rest => exact if_neg (Nat.not_le.mpr (h f rfl))

theorem close_cons {least : Nat} {f : Pending} (h : least ≤ f.level) (stack : List Pending)
    (x : Tree) : close least (f :: stack) x = close least stack (f.complete x) :=
  if_pos h

namespace Reader

@[simp] theorem run_nil (r : Reader) : run [] r = some r := rfl

@[simp] theorem run_cons (s : String) (ls : List String) (r : Reader) :
    run (s :: ls) r = (step r s).bind (run ls) :=
  List.foldlM_cons ..

@[simp] theorem run_append (a b : List String) (r : Reader) :
    run (a ++ b) r = (run a r).bind (run b) :=
  List.foldlM_append ..

@[simp] theorem step_start (stack : List Pending) (s : String) :
    step ⟨stack, none⟩ s = start stack s := rfl

/-- Behind an operand every lexeme is a sign, unless it begins the operand of a cast. -/
theorem step_sign {x : Tree} {s : String} (h : x.castType? = none ∨ ¬(IsWord s ∨ s = "("))
    (stack : List Pending) : step ⟨stack, some x⟩ s = sign stack x s := by
  unfold step
  rcases h with h | h
  · simp only [h]
  · cases htype : x.castType? with
    | none => simp only [htype]
    | some type => simp only [htype, if_neg h]

theorem step_cast {x type : Tree} (hx : x.castType? = some type) {s : String}
    (hs : IsWord s ∨ s = "(") (stack : List Pending) :
    step ⟨stack, some x⟩ s = step ⟨.cast type :: stack, none⟩ s := by
  simp only [step, hx, if_pos hs]

theorem sign_opening (b : Bracket) (stack : List Pending) (x : Tree) :
    sign stack x b.opening = some ⟨.arguments b x [] :: stack, none⟩ := by
  simp [sign]

theorem sign_closing (b : Bracket) (stack : List Pending) (x : Tree) :
    sign stack x b.closing = shut b stack x := by
  simp [sign]

theorem sign_operator (op : Operator) (stack : List Pending) (x : Tree) :
    sign stack x op.text =
      some ⟨.binary op (close op.left stack x).2 :: (close op.left stack x).1, none⟩ := by
  cases op <;> rfl

theorem sign_comma {stack rest : List Pending} {x y head : Tree} {b : Bracket} {before : List Tree}
    (h : close 1 stack y = (.arguments b head before :: rest, x)) :
    sign stack y "," = some ⟨.arguments b head (before ++ [x]) :: rest, none⟩ := by
  change (match close 1 stack y with
    | (.arguments b head before :: stack, x) =>
      some (Reader.mk (.arguments b head (before ++ [x]) :: stack) none)
    | _ => none) = _
  rw [h]

theorem sign_question (stack : List Pending) (x : Tree) :
    sign stack x "?" = some ⟨.condition (close 4 stack x).2 :: (close 4 stack x).1, none⟩ := rfl

theorem sign_colon {stack rest : List Pending} {x y c : Tree}
    (h : close 3 stack y = (.condition c :: rest, x)) :
    sign stack y ":" = some ⟨.branches c x :: rest, none⟩ := by
  change (match close 3 stack y with
    | (.condition c :: stack, x) => some (Reader.mk (.branches c x :: stack) none)
    | _ => none) = _
  rw [h]

theorem shut_arguments {stack rest : List Pending} {x y head : Tree} {b : Bracket}
    {before : List Tree} (h : close 1 stack y = (.arguments b head before :: rest, x)) :
    shut b stack y = some (applied b head (before ++ [x]) rest) := by
  simp [shut, h]

theorem shut_group {stack rest : List Pending} {x y : Tree}
    (h : close 1 stack y = (.group :: rest, x)) :
    shut .round stack y = some ⟨rest, some (.group x)⟩ := by
  simp [shut, h]

end Reader

/-- What waits accepts an operand of the precedence. -/
def Accepts (p : Nat) (stack : List Pending) : Prop :=
  ∀ f ∈ stack.head?, f.needs ≤ p

theorem accepts_cons {p : Nat} (f : Pending) (stack : List Pending) :
    Accepts p (f :: stack) ↔ f.needs ≤ p := by
  simp [Accepts]

theorem Accepts.mono {p q : Nat} {stack : List Pending} (h : Accepts q stack) (hq : q ≤ p) :
    Accepts p stack :=
  fun f hf => (h f hf).trans hq

/-- Nothing that waits for an expression is completed at the level of a primary one. -/
theorem close_primary (stack : List Pending) (x : Tree) : close 9 stack x = (stack, x) :=
  close_of_lt (fun f _ => f.level_lt) x

namespace Reader

theorem start_of_isWord {s : String} (hs : IsWord s) {stack : List Pending}
    (h : Accepts 10 stack) :
    start stack s =
      if s = "new" then some ⟨.creation :: stack, none⟩
      else if s = "ref" then some ⟨.reference :: stack, none⟩
      else some ⟨stack, some (.word s)⟩ := by
  cases stack with
  | nil => simp [start, hs]
  | cons f rest =>
    cases f with
    | member object => exact absurd (h _ rfl) (by simp [Pending.needs])
    | _ => simp [start, hs]

theorem start_word {s : String} (hs : IsPlain s) {stack : List Pending} (h : Accepts 10 stack) :
    start stack s = some ⟨stack, some (.word s)⟩ := by
  rw [start_of_isWord hs.1 h, if_neg hs.2.1, if_neg hs.2.2]

theorem start_new {stack : List Pending} (h : Accepts 10 stack) :
    start stack "new" = some ⟨.creation :: stack, none⟩ := by
  rw [start_of_isWord (by decide) h, if_pos rfl]

theorem start_ref {stack : List Pending} (h : Accepts 10 stack) :
    start stack "ref" = some ⟨.reference :: stack, none⟩ := by
  rw [start_of_isWord (by decide) h, if_neg (by decide), if_pos rfl]

theorem start_paren {stack : List Pending} (h : Accepts 10 stack) :
    start stack "(" = some ⟨.group :: stack, none⟩ := by
  have hword : ¬IsWord "(" := by decide
  cases stack with
  | nil => simp [start, hword]
  | cons f rest =>
    cases f with
    | member object => exact absurd (h _ rfl) (by simp [Pending.needs])
    | arguments b head before => cases before <;> simp [start, hword]
    | _ => simp [start, hword]

theorem start_member {s : String} (hs : IsWord s) (object : Tree) (stack : List Pending) :
    start (.member object :: stack) s = some ⟨stack, some (.member object s)⟩ := by
  simp [start, hs]

theorem start_closing (b : Bracket) (head : Tree) (stack : List Pending) :
    start (.arguments b head [] :: stack) b.closing = some (applied b head [] stack) := by
  have hword : ¬IsWord b.closing := by cases b <;> decide
  have hparen : b.closing ≠ "(" := by cases b <;> decide
  simp [start, hword, hparen]

theorem applied_of_accepts {stack : List Pending} (h : Accepts 9 stack) (b : Bracket) (head : Tree)
    (arguments : List Tree) :
    applied b head arguments stack = ⟨stack, some (.apply b head arguments)⟩ := by
  cases stack with
  | nil => rfl
  | cons f rest =>
    cases f with
    | creation => exact absurd (h _ rfl) (by simp [Pending.needs])
    | _ => rfl

end Reader

/-! ## What lexemes are read as -/

/-- Wherever an operand of precedence `p` may stand, the lexemes are read as `x`: what comes next
and completes operands of at most that precedence finds `x`. -/
structure ReadsAs (p : Nat) (ls : List String) (x : Tree) : Prop where
  begins : ∃ s ∈ ls.head?, IsWord s ∨ s = "("
  reads : ∀ stack, Accepts p stack → ∃ stack' y,
    Reader.run ls ⟨stack, none⟩ = some ⟨stack', some y⟩ ∧
      ∀ least ≤ p, close least stack' y = close least stack x

section
variable {p : Nat} {ls : List String} {x : Tree}

theorem ReadsAs.mono (h : ReadsAs p ls x) {q : Nat} (hq : q ≤ p) : ReadsAs q ls x := by
  refine ⟨h.begins, fun stack hstack => ?_⟩
  obtain ⟨stack', y, hrun, hclose⟩ := h.reads stack (hstack.mono hq)
  exact ⟨stack', y, hrun, fun least hleast => hclose least (hleast.trans hq)⟩

/-- Primary expressions and types leave nothing to complete. -/
theorem ReadsAs.exact (h : ReadsAs p ls x) (hp : 9 ≤ p) {stack : List Pending}
    (hstack : Accepts p stack) : Reader.run ls ⟨stack, none⟩ = some ⟨stack, some x⟩ := by
  obtain ⟨stack', y, hrun, hclose⟩ := h.reads stack hstack
  have hsame := hclose 9 hp
  rw [close_primary, close_primary] at hsame
  obtain ⟨rfl, rfl⟩ := Prod.mk.inj hsame
  exact hrun

theorem ReadsAs.of_exact (hbegins : ∃ s ∈ ls.head?, IsWord s ∨ s = "(")
    (h : ∀ stack, Accepts p stack → Reader.run ls ⟨stack, none⟩ = some ⟨stack, some x⟩) :
    ReadsAs p ls x :=
  ⟨hbegins, fun stack hstack => ⟨stack, x, h stack hstack, fun _ _ => rfl⟩⟩

/-- An operand and the sign behind it. -/
theorem ReadsAs.run_sign (h : ReadsAs p ls x) {stack : List Pending} (hstack : Accepts p stack)
    {s : String} (hs : ¬(IsWord s ∨ s = "(")) (rest : List String) :
    ∃ stack' y, (∀ least ≤ p, close least stack' y = close least stack x) ∧
      Reader.run (ls ++ s :: rest) ⟨stack, none⟩ =
        (Reader.sign stack' y s).bind (Reader.run rest) := by
  obtain ⟨stack', y, hrun, hclose⟩ := h.reads stack hstack
  refine ⟨stack', y, hclose, ?_⟩
  rw [Reader.run_append, hrun, Option.bind_some, Reader.run_cons, Reader.step_sign (.inr hs)]

/-- An expression that ends at a bracket or comma. -/
theorem ReadsAs.close_argument {stack stack' : List Pending} {f : Pending} {y : Tree}
    (hclose : ∀ least ≤ 1, close least stack' y = close least (f :: stack) x) (hf : f.level = 0) :
    close 1 stack' y = (f :: stack, x) := by
  rw [hclose 1 le_rfl]
  exact close_of_lt (fun g hg => by cases hg; simp [hf]) x

theorem begins_append (h : ∃ s ∈ ls.head?, IsWord s ∨ s = "(") (rest : List String) :
    ∃ s ∈ (ls ++ rest).head?, IsWord s ∨ s = "(" := by
  obtain ⟨s, hs, hbegins⟩ := h
  cases ls with
  | nil => cases hs
  | cons first more => exact ⟨s, hs, hbegins⟩

/-! ### Primary expressions and types -/

theorem reads_word {s : String} (hs : IsPlain s) : ReadsAs 10 [s] (.word s) := by
  refine .of_exact ⟨s, rfl, .inl hs.1⟩ fun stack hstack => ?_
  simp [Reader.start_word hs hstack]

theorem ReadsAs.member (h : ReadsAs p ls x) (hp : 9 ≤ p) {name : String} (hname : IsWord name) :
    ReadsAs p (ls ++ [".", name]) (.member x name) := by
  refine .of_exact (begins_append h.begins _) fun stack hstack => ?_
  have hpoint : ¬(IsWord "." ∨ "." = "(") := by decide
  rw [Reader.run_append, h.exact hp hstack, Option.bind_some, Reader.run_cons,
    Reader.step_sign (.inr hpoint)]
  change Reader.run [name] ⟨.member x :: stack, none⟩ = _
  simp [Reader.start_member hname]

/-- The arguments up to their closing bracket, behind some that have been read. -/
theorem run_arguments {lss : List (List String)} {xs : List Tree}
    (h : List.Forall₂ (ReadsAs 1) lss xs) (hne : lss ≠ []) (b : Bracket) (head : Tree)
    (before : List Tree) (stack : List Pending) :
    Reader.run ([","].intercalate lss ++ [b.closing]) ⟨.arguments b head before :: stack, none⟩ =
      some (Reader.applied b head (before ++ xs) stack) := by
  induction h generalizing before with
  | nil => exact absurd rfl hne
  | @cons ls x rest ys hfirst hrest ih =>
    have haccepts : Accepts 1 (.arguments b head before :: stack) := by
      simp [accepts_cons, Pending.needs]
    cases hrest with
    | nil =>
      have hclosing : ¬(IsWord b.closing ∨ b.closing = "(") := by cases b <;> decide
      obtain ⟨stack', y, hclose, hrun⟩ := hfirst.run_sign haccepts hclosing []
      rw [List.intercalate_singleton, hrun, Reader.sign_closing,
        Reader.shut_arguments (ReadsAs.close_argument hclose rfl)]
      rfl
    | cons hsecond hmore =>
      have hcomma : ¬(IsWord "," ∨ "," = "(") := by decide
      obtain ⟨stack', y, hclose, hrun⟩ := hfirst.run_sign haccepts hcomma _
      rw [List.intercalate_cons_cons, List.append_assoc, List.append_assoc, List.singleton_append,
        hrun, Reader.sign_comma (ReadsAs.close_argument hclose rfl), Option.bind_some,
        ih (by simp) (before ++ [x]), List.append_assoc, List.singleton_append]

/-- A bracket with arguments. -/
theorem run_bracket {lss : List (List String)} {xs : List Tree}
    (h : List.Forall₂ (ReadsAs 1) lss xs) {b : Bracket} {head : Tree}
    (hhead : b = .round → head.castType? = none) (stack : List Pending) :
    Reader.run (b.opening :: [","].intercalate lss ++ [b.closing]) ⟨stack, some head⟩ =
      some (Reader.applied b head xs stack) := by
  have hstep : Reader.step ⟨stack, some head⟩ b.opening =
      some ⟨.arguments b head [] :: stack, none⟩ := by
    rw [Reader.step_sign ?_ stack, Reader.sign_opening]
    cases b with
    | round => exact .inl (hhead rfl)
    | square | angle => exact .inr (by decide)
  rw [List.cons_append, Reader.run_cons, hstep, Option.bind_some]
  cases h with
  | nil => simp [Reader.start_closing]
  | cons hfirst hrest => exact run_arguments (.cons hfirst hrest) (by simp) b head [] stack

theorem ReadsAs.apply (h : ReadsAs p ls x) (hp : 9 ≤ p) {b : Bracket} (hb : p = 9 ∨ b = .angle)
    (hx : b = .round → x.castType? = none) {lss : List (List String)} {xs : List Tree}
    (harguments : List.Forall₂ (ReadsAs 1) lss xs) :
    ReadsAs p (ls ++ b.opening :: [","].intercalate lss ++ [b.closing]) (.apply b x xs) := by
  rw [List.append_assoc]
  refine .of_exact (begins_append h.begins _) fun stack hstack => ?_
  rw [Reader.run_append, h.exact hp hstack, Option.bind_some, run_bracket harguments hx]
  rcases hb with rfl | rfl
  · rw [Reader.applied_of_accepts hstack]
  · cases stack with
    | nil => rfl
    | cons f rest => cases f <;> rfl

/-- A new object or array. -/
theorem ReadsAs.creation (h : ReadsAs 10 ls x) {b : Bracket} (hb : b ≠ .angle)
    (hx : x.isType = true) {lss : List (List String)} {xs : List Tree}
    (harguments : List.Forall₂ (ReadsAs 1) lss xs) :
    ReadsAs 9 ("new" :: ls ++ b.opening :: [","].intercalate lss ++ [b.closing])
      (.creation (.apply b x xs)) := by
  refine .of_exact ⟨"new", rfl, .inl (by decide)⟩ fun stack hstack => ?_
  have haccepts : Accepts 10 (.creation :: stack) := by simp [accepts_cons, Pending.needs]
  rw [List.cons_append, List.cons_append, List.append_assoc, Reader.run_cons, Reader.step_start,
    Reader.start_new (hstack.mono (by decide)), Option.bind_some, Reader.run_append,
    h.exact (by decide) haccepts, Option.bind_some,
    run_bracket harguments fun _ => Tree.castType?_of_isType hx]
  simp [Reader.applied, hb]

theorem ReadsAs.group (h : ReadsAs 1 ls x) : ReadsAs 9 ("(" :: ls ++ [")"]) (.group x) := by
  refine .of_exact ⟨"(", rfl, .inr rfl⟩ fun stack hstack => ?_
  have haccepts : Accepts 1 (.group :: stack) := by simp [accepts_cons, Pending.needs]
  obtain ⟨stack', y, hclose, hrun⟩ := h.run_sign haccepts (by decide : ¬(IsWord ")" ∨ ")" = "(")) []
  rw [List.cons_append, Reader.run_cons, Reader.step_start,
    Reader.start_paren (hstack.mono (by decide)), Option.bind_some, hrun]
  change (Reader.sign stack' y Bracket.round.closing).bind _ = _
  rw [Reader.sign_closing, Reader.shut_group (ReadsAs.close_argument hclose rfl)]
  rfl

/-! ### Operators -/

theorem ReadsAs.cast {type : Tree} (htype : ReadsAs 10 ls type) (hform : type.isType = true)
    {lo : List String} (h : ReadsAs 8 lo x) :
    ReadsAs 8 ("(" :: ls ++ ")" :: lo) (.cast type x) := by
  refine ⟨⟨"(", rfl, .inr rfl⟩, fun stack hstack => ?_⟩
  have haccepts : Accepts 8 (.cast type :: stack) := by simp [accepts_cons, Pending.needs]
  obtain ⟨stack', y, hrun, hclose⟩ := h.reads _ haccepts
  refine ⟨stack', y, ?_, fun least hleast => ?_⟩
  · have hgroup := (htype.mono (by decide : 1 ≤ 10)).group.exact (by decide)
      (hstack.mono (by decide))
    obtain ⟨s, hs, hbegins⟩ := h.begins
    cases lo with
    | nil => cases hs
    | cons first rest =>
      obtain rfl : first = s := Option.some.inj hs
      have hcast : (Tree.group type).castType? = some type := by simp [Tree.castType?, hform]
      have hsplit : "(" :: ls ++ ")" :: first :: rest = ("(" :: ls ++ [")"]) ++ first :: rest := by
        simp
      rw [hsplit, Reader.run_append, hgroup, Option.bind_some, Reader.run_cons,
        Reader.step_cast hcast hbegins, ← Reader.run_cons, hrun]
  · rw [hclose least hleast, close_cons hleast]
    rfl

theorem ReadsAs.binary (op : Operator) {la lb : List String} {a b : Tree}
    (ha : ReadsAs op.left la a) (hb : ReadsAs op.right lb b) :
    ReadsAs op.level (la ++ op.text :: lb) (.binary op a b) := by
  refine ⟨begins_append ha.begins _, fun stack hstack => ?_⟩
  have hsign : ¬(IsWord op.text ∨ op.text = "(") := by cases op <;> decide
  have haccepts : Accepts op.right (.binary op a :: stack) := by simp [accepts_cons, Pending.needs]
  obtain ⟨before, z, hbefore, hrun⟩ := ha.run_sign (hstack.mono (min_le_left _ _)) hsign lb
  obtain ⟨stack', y, hright, hclose⟩ := hb.reads _ haccepts
  have hleft : close op.left before z = (stack, a) := by
    rw [hbefore op.left le_rfl]
    exact close_of_lt (fun f hf => f.level_lt_left op (hstack f hf)) a
  refine ⟨stack', y, ?_, fun least hleast => ?_⟩
  · rw [hrun, Reader.sign_operator, hleft, Option.bind_some, hright]
  · rw [hclose least (hleast.trans (min_le_right _ _)), close_cons hleast]
    rfl

theorem ReadsAs.conditional {lc la lb : List String} {c a b : Tree} (hc : ReadsAs 4 lc c)
    (ha : ReadsAs 3 la a) (hb : ReadsAs 3 lb b) :
    ReadsAs 3 (lc ++ "?" :: (la ++ ":" :: lb)) (.conditional c a b) := by
  refine ⟨begins_append hc.begins _, fun stack hstack => ?_⟩
  have hcondition : Accepts 3 (.condition c :: stack) := by simp [accepts_cons, Pending.needs]
  have hbranches : Accepts 3 (.branches c a :: stack) := by simp [accepts_cons, Pending.needs]
  obtain ⟨before, z, hbefore, hrun⟩ := hc.run_sign (hstack.mono (by decide))
    (by decide : ¬(IsWord "?" ∨ "?" = "(")) (la ++ ":" :: lb)
  obtain ⟨between, w, hbetween, hrun'⟩ := ha.run_sign hcondition
    (by decide : ¬(IsWord ":" ∨ ":" = "(")) lb
  obtain ⟨stack', y, hlast, hclose⟩ := hb.reads _ hbranches
  have hleft : close 4 before z = (stack, c) := by
    rw [hbefore 4 le_rfl]
    exact close_of_lt (fun f hf => Nat.lt_succ_of_le (f.level_le_needs.trans (hstack f hf))) c
  have hmiddle : close 3 between w = (.condition c :: stack, a) := by
    rw [hbetween 3 le_rfl]
    exact close_of_lt (fun f hf => by cases hf; simp [Pending.level]) a
  refine ⟨stack', y, ?_, fun least hleast => ?_⟩
  · rw [hrun, Reader.sign_question, hleft, Option.bind_some, hrun', Reader.sign_colon hmiddle,
      Option.bind_some, hlast]
  · rw [hclose least hleast, close_cons hleast]
    rfl

theorem ReadsAs.reference (h : ReadsAs 1 ls x) : ReadsAs 1 ("ref" :: ls) (.reference x) := by
  refine ⟨⟨"ref", rfl, .inl (by decide)⟩, fun stack hstack => ?_⟩
  have haccepts : Accepts 1 (.reference :: stack) := by simp [accepts_cons, Pending.needs]
  obtain ⟨stack', y, hrun, hclose⟩ := h.reads _ haccepts
  refine ⟨stack', y, ?_, fun least hleast => ?_⟩
  · rw [Reader.run_cons, Reader.step_start, Reader.start_ref (hstack.mono (by decide)),
      Option.bind_some, hrun]
  · rw [hclose least hleast, close_cons hleast]
    rfl

/-- A whole text. -/
theorem ReadsAs.readTree? {text : String} (hp : 1 ≤ p) (h : ReadsAs p ls x)
    (htext : lexemes text = ls) : readTree? text = some x := by
  obtain ⟨stack', y, hrun, hclose⟩ := h.reads [] (by simp [Accepts])
  have hend : close 1 stack' y = ([], x) := hclose 1 hp
  simp [Reading.readTree?, htext, hrun, hend]

end

end InteropGen.Reading

import InteropGen.Proofs.Reading.Loops
import InteropGen.CSharp.Stmt

/-!
# Scopes of local variables

The parameters of a method and the local variables of its blocks are known by their names. A scope
lists those that are declared at a point, the innermost first. `BodyScoped` says of statements that
no variable is declared under a name that a variable in scope has, and that each name that is
mentioned stands for the variable that is meant.

* `Local.name_injective` — different variables have different names, whatever counters are called;
* `Expr.Resolved.mono` — an expression keeps its meaning in a larger scope;
* `BodyScoped.nests_nodup` — the counters of loops inside each other have different names.
-/

set_option autoImplicit false

namespace InteropGen.CSharp

/-! ## Names -/

namespace Local

/-- Whether a text ends in a digit. -/
def endsInDigit (text : String) : Bool :=
  text.toList.getLast?.any Char.isDigit

theorem endsInDigit_counter (stem : String) (depth : Nat) :
    endsInDigit ((counter depth).name stem) = true := by
  have hne : Nat.toDigits 10 depth ≠ [] := Nat.toDigits_ne_nil
  have hword : ((counter depth).name stem).toList = stem.toList ++ Nat.toDigits 10 depth :=
    Reading.counterWord_eq stem depth
  rw [endsInDigit, hword, List.getLast?_append_of_ne_nil _ hne, List.getLast?_eq_some_getLast hne]
  exact Nat.isDigit_of_mem_toDigits (by decide) (by decide) (List.getLast_mem hne)

/-- The names of variables other than counters end in letters. -/
theorem eq_counter_of_endsInDigit {stem : String} {x : Local}
    (h : endsInDigit (x.name stem) = true) : ∃ depth, x = counter depth := by
  cases x with
  | counter depth => exact ⟨depth, rfl⟩
  | _ => simp [Local.name, endsInDigit] at h

/-- Different variables have different names. -/
theorem name_injective (stem : String) : Function.Injective (Local.name stem) := by
  intro x y h
  have hcounter : ∀ {x y : Local} {depth : Nat}, x = counter depth → x.name stem = y.name stem →
      x = y := by
    rintro _ y depth rfl h
    obtain ⟨depth', rfl⟩ := eq_counter_of_endsInDigit (h ▸ endsInDigit_counter stem depth)
    rw [Reading.counterWord_injective stem (congrArg String.toList h)]
  cases x with
  | counter depth => exact hcounter rfl h
  | _ =>
    cases y with
    | counter depth => exact (hcounter rfl h.symm).symm
    | _ => first | rfl | simp [Local.name] at h

/-- In the scope, the name of the variable stands for the variable: the innermost one of that name
is itself. -/
def Denotes (stem : String) (scope : List Local) (x : Local) : Prop :=
  scope.find? (fun y => y.name stem = x.name stem) = some x

/-- The name of the variable is not taken in the scope. -/
def Fresh (stem : String) (scope : List Local) (x : Local) : Prop :=
  ∀ y ∈ scope, y.name stem ≠ x.name stem

variable {stem : String} {scope : List Local} {x : Local}

@[simp] theorem fresh_iff : x.Fresh stem scope ↔ x ∉ scope :=
  ⟨fun h hx => h x hx rfl, fun h _ hy hname => h (name_injective stem hname ▸ hy)⟩

@[simp] theorem denotes_iff : x.Denotes stem scope ↔ x ∈ scope := by
  unfold Denotes
  constructor
  · exact List.mem_of_find?_eq_some
  · intro hx
    cases hfind : scope.find? (fun y => y.name stem = x.name stem) with
    | none => simpa using List.find?_eq_none.mp hfind x hx
    | some y =>
      have hname := List.find?_some hfind
      rw [name_injective stem (of_decide_eq_true hname)]

end Local

/-! ## Expressions and statements -/

section
variable (stem : String)

mutual

/-- Every variable that the expression mentions is in scope under its name. What a text given as it
is mentions is not known. -/
@[simp] def Expr.Resolved (scope : List Local) : Expr → Prop
  | .var x => x.Denotes stem scope
  | .field .transfer _ => Local.wrapper.Denotes stem scope
  | .spelled _ => False
  | .field .value _ | .nat _ | .constant _ | .defaultOf _ | .newArray _ _ _ => True
  | .paren e | .listCount e | .arrayLength e | .byRef e => e.Resolved scope
  | .cast _ e | .uncheckedCast _ e => e.Resolved scope
  | .index base indices => base.Resolved scope ∧ AllResolved scope indices
  | .binary _ left right => left.Resolved scope ∧ right.Resolved scope
  | .sum terms => AllResolved scope terms
  | .conditional condition whenTrue whenFalse =>
    condition.Resolved scope ∧ whenTrue.Resolved scope ∧ whenFalse.Resolved scope
  | .call _ arguments => AllResolved scope arguments
  | .invoke receiver _ arguments => receiver.Resolved scope ∧ AllResolved scope arguments
  | .newObject _ arguments => AllResolved scope arguments

@[simp] def AllResolved (scope : List Local) : List Expr → Prop
  | [] => True
  | e :: es => e.Resolved scope ∧ AllResolved scope es

end

/-- The variable that a statement declares for those after it in its block. -/
@[simp] def Stmt.declared : Stmt → List Local
  | .declare _ name _ => [name]
  | _ => []

mutual

/-- Every variable that the statement declares is new where it is declared, and every variable that
it mentions is in scope under its name. -/
@[simp] def Stmt.Scoped (scope : List Local) : Stmt → Prop
  | .assign place value => place.Resolved stem scope ∧ value.Resolved stem scope
  | .declare _ name value => name.Fresh stem scope ∧ value.Resolved stem scope
  | .run call => call.Resolved stem scope
  | .block body => BodyScoped scope body
  | .countUp depth bound body =>
    (Local.counter depth).Fresh stem scope ∧
      bound.Resolved stem (.counter depth :: scope) ∧ BodyScoped (.counter depth :: scope) body
  | .when condition body => condition.Resolved stem scope ∧ BodyScoped scope body
  | .forEach _ name list body =>
    name.Fresh stem scope ∧ list.Resolved stem scope ∧ BodyScoped (name :: scope) body

/-- The statements of a block, each in the scope that those before it leave. -/
@[simp] def BodyScoped (scope : List Local) : List Stmt → Prop
  | [] => True
  | s :: rest => s.Scoped scope ∧ BodyScoped (s.declared ++ scope) rest

end

/-- Statements that declare nothing outside their own blocks. -/
def Enclosed (scope : List Local) (body : List Stmt) : Prop :=
  ∀ s ∈ body, s.Scoped stem scope ∧ s.declared = []

mutual

/-- For each loop in a statement, its counter and those of the loops around it, innermost first. -/
def Stmt.nests (outer : List Local) : Stmt → List (List Local)
  | .assign _ _ | .declare _ _ _ | .run _ => []
  | .block body | .when _ body | .forEach _ _ _ body => bodyNests outer body
  | .countUp depth _ body =>
    (.counter depth :: outer) :: bodyNests (.counter depth :: outer) body

def bodyNests (outer : List Local) : List Stmt → List (List Local)
  | [] => []
  | s :: rest => s.nests outer ++ bodyNests outer rest

end

end

variable {stem : String} {scope scope' : List Local}

mutual

theorem Expr.Resolved.mono (h : scope ⊆ scope') :
    ∀ e : Expr, e.Resolved stem scope → e.Resolved stem scope'
  | .var x, he => by
    rw [Expr.Resolved, Local.denotes_iff] at he ⊢
    exact h he
  | .field .transfer name, he => by
    rw [Expr.Resolved, Local.denotes_iff] at he ⊢
    exact h he
  | .spelled _, he => he
  | .field .value _, _ | .nat _, _ | .constant _, _ | .defaultOf _, _ | .newArray _ _ _, _ =>
    trivial
  | .paren e, he | .listCount e, he | .arrayLength e, he | .byRef e, he => Expr.Resolved.mono h e he
  | .cast _ e, he | .uncheckedCast _ e, he => Expr.Resolved.mono h e he
  | .index base indices, he =>
    ⟨Expr.Resolved.mono h base he.1, AllResolved.mono h indices he.2⟩
  | .binary _ left right, he =>
    ⟨Expr.Resolved.mono h left he.1, Expr.Resolved.mono h right he.2⟩
  | .sum terms, he => AllResolved.mono h terms he
  | .conditional condition whenTrue whenFalse, he =>
    ⟨Expr.Resolved.mono h condition he.1, Expr.Resolved.mono h whenTrue he.2.1,
      Expr.Resolved.mono h whenFalse he.2.2⟩
  | .call _ arguments, he => AllResolved.mono h arguments he
  | .invoke receiver _ arguments, he =>
    ⟨Expr.Resolved.mono h receiver he.1, AllResolved.mono h arguments he.2⟩
  | .newObject _ arguments, he => AllResolved.mono h arguments he

theorem AllResolved.mono (h : scope ⊆ scope') :
    ∀ es : List Expr, AllResolved stem scope es → AllResolved stem scope' es
  | [], _ => trivial
  | e :: es, he => ⟨Expr.Resolved.mono h e he.1, AllResolved.mono h es he.2⟩

end

theorem allResolved_append (a b : List Expr) :
    AllResolved stem scope (a ++ b) ↔ AllResolved stem scope a ∧ AllResolved stem scope b := by
  induction a with
  | nil => simp
  | cons e es ih => simp [ih, and_assoc]

namespace Enclosed

theorem nil : Enclosed stem scope [] :=
  List.forall_mem_nil _

/-- Such statements leave the scope as it is to those after them. -/
theorem bodyScoped_append {a b : List Stmt} (ha : Enclosed stem scope a)
    (hb : BodyScoped stem scope b) : BodyScoped stem scope (a ++ b) := by
  induction a with
  | nil => exact hb
  | cons s rest ih =>
    obtain ⟨⟨hscoped, hdeclared⟩, hrest⟩ := List.forall_mem_cons.mp ha
    refine ⟨hscoped, ?_⟩
    rw [hdeclared]
    exact ih hrest

theorem bodyScoped {body : List Stmt} (h : Enclosed stem scope body) :
    BodyScoped stem scope body := by
  simpa using h.bodyScoped_append (b := []) trivial

theorem cons {s : Stmt} {rest : List Stmt} (hscoped : s.Scoped stem scope)
    (hdeclared : s.declared = []) (hrest : Enclosed stem scope rest) :
    Enclosed stem scope (s :: rest) :=
  List.forall_mem_cons.mpr ⟨⟨hscoped, hdeclared⟩, hrest⟩

theorem append {a b : List Stmt} (ha : Enclosed stem scope a) (hb : Enclosed stem scope b) :
    Enclosed stem scope (a ++ b) :=
  fun s hs => (List.mem_append.mp hs).elim (ha s) (hb s)

theorem flatMap {α : Type} {items : List α} {body : α → List Stmt}
    (h : ∀ item ∈ items, Enclosed stem scope (body item)) :
    Enclosed stem scope (items.flatMap body) := fun s hs => by
  obtain ⟨item, hitem, hmem⟩ := List.mem_flatMap.mp hs
  exact h item hitem s hmem

end Enclosed

mutual

/-- The counters of loops inside each other have different names, by induction on the statements:
the counters around a place are in scope there. -/
theorem Stmt.Scoped.nests_nodup {outer : List Local} (hnodup : (outer.map (·.name stem)).Nodup) :
    ∀ {scope : List Local}, outer ⊆ scope → ∀ s : Stmt, s.Scoped stem scope →
      ∀ nest ∈ s.nests outer, (nest.map (·.name stem)).Nodup
  | _, _, .assign _ _, _ | _, _, .declare _ _ _, _ | _, _, .run _, _ => nofun
  | _, hmem, .block body, hs => BodyScoped.nests_nodup hnodup hmem body hs
  | _, hmem, .when _ body, hs => BodyScoped.nests_nodup hnodup hmem body hs.2
  | _, hmem, .forEach _ _ _ body, hs =>
    BodyScoped.nests_nodup hnodup (List.subset_cons_of_subset _ hmem) body hs.2.2
  | _, hmem, .countUp depth _ body, hs => by
    have hinner : (((Local.counter depth) :: outer).map (·.name stem)).Nodup := by
      rw [List.map_cons, List.nodup_cons]
      refine ⟨fun hname => ?_, hnodup⟩
      obtain ⟨x, hx, heq⟩ := List.mem_map.mp hname
      exact hs.1 x (hmem hx) heq
    intro nest hnest
    rcases List.mem_cons.mp hnest with rfl | hnest
    · exact hinner
    · exact BodyScoped.nests_nodup hinner (List.cons_subset_cons _ hmem) body hs.2.2 nest hnest

theorem BodyScoped.nests_nodup {outer : List Local} (hnodup : (outer.map (·.name stem)).Nodup) :
    ∀ {scope : List Local}, outer ⊆ scope → ∀ body : List Stmt, BodyScoped stem scope body →
      ∀ nest ∈ bodyNests outer body, (nest.map (·.name stem)).Nodup
  | _, _, [], _ => nofun
  | _, hmem, s :: rest, hs => fun nest hnest => by
    rcases List.mem_append.mp hnest with hnest | hnest
    · exact Stmt.Scoped.nests_nodup hnodup hmem s hs.1 nest hnest
    · exact BodyScoped.nests_nodup hnodup (List.subset_append_of_subset_right _ hmem) rest hs.2
        nest hnest

end

end InteropGen.CSharp

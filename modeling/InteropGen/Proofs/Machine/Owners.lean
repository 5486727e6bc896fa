import InteropGen.Proofs.Machine.Run

/-!
# What evaluation leaves alone

An expression may allocate native memory, read from the wire, or make a new object whose constructor
runs. The object whose method runs and its transfer struct stay as they are.

* `eval_keepsOwners` — for every expression, on every machine.
-/

set_option autoImplicit false

namespace InteropGen.CSharp

/-- The object and the transfer struct are the same. -/
structure State.SameOwners (st st' : State) : Prop where
  self : st'.self = st.self
  wrapper : st'.wrapper = st.wrapper

/-- If there is a result, its state has the same owners. -/
def KeepsOwners {α : Type} (st : State) (result : Option (α × State)) : Prop :=
  ∀ a st', result = some (a, st') → st.SameOwners st'

namespace KeepsOwners
variable {α β : Type} {st : State}

theorem none : @KeepsOwners α st Option.none := nofun

theorem some {a : α} {st' : State} (hself : st'.self = st.self)
    (hwrapper : st'.wrapper = st.wrapper) : KeepsOwners st (Option.some (a, st')) := by
  intro b st'' h
  cases h
  exact ⟨hself, hwrapper⟩

theorem map {o : Option β} {f : β → α × State} (h : ∀ b, st.SameOwners (f b).2) :
    KeepsOwners st (o.map f) := by
  intro a st' hresult
  obtain ⟨b, _, hb⟩ := Option.map_eq_some_iff.mp hresult
  have hkeeps := h b
  rw [hb] at hkeeps
  exact hkeeps

theorem bind {first : Option (β × State)} {next : β × State → Option (α × State)}
    (hfirst : KeepsOwners st first) (hnext : ∀ b st', KeepsOwners st' (next (b, st'))) :
    KeepsOwners st (first >>= next) := by
  intro a st'' h
  obtain ⟨⟨b, st'⟩, hb, ha⟩ := Option.bind_eq_some_iff.mp h
  have h₁ := hfirst b st' hb
  have h₂ := hnext b st' a st'' ha
  exact ⟨h₂.self.trans h₁.self, h₂.wrapper.trans h₁.wrapper⟩

theorem pure_bind {o : Option β} {next : β → Option (α × State)}
    (hnext : ∀ b, KeepsOwners st (next b)) : KeepsOwners st (o >>= next) := by
  intro a st' h
  obtain ⟨b, _, ha⟩ := Option.bind_eq_some_iff.mp h
  exact hnext b a st' ha

end KeepsOwners

section
variable (m : Machine) (lib : Library)

theorem call?_keepsOwners (f : Function) (arguments : List Value) (st : State) :
    KeepsOwners st (m.call? f arguments st) := by
  unfold Machine.call?
  split <;> (try split) <;>
    first
    | exact .none
    | exact .some rfl rfl
    | exact .map fun _ => ⟨rfl, rfl⟩

theorem construct?_keepsOwners (type : Ty) (arguments : List Value) (st : State) :
    KeepsOwners st (m.construct? lib type arguments st) := by
  unfold Machine.construct?
  split <;> (try split) <;>
    first
    | exact .none
    | exact .some rfl rfl
    | exact .map fun _ => ⟨rfl, rfl⟩

mutual
theorem eval_keepsOwners (e : Expr) (env : Env) (st : State) :
    KeepsOwners st (e.eval m lib env st) := by
  cases e with
  | var name =>
    cases name <;> first | exact .some rfl rfl | exact .map fun _ => ⟨rfl, rfl⟩
  | field owner name => exact .map fun _ => ⟨rfl, rfl⟩
  | spelled text => exact .none
  | nat n => exact .map fun _ => ⟨rfl, rfl⟩
  | constant c => exact .some rfl rfl
  | paren inner => exact eval_keepsOwners inner env st
  | index base indices =>
    exact .bind (eval_keepsOwners base env st) fun v st₁ =>
      .bind (evalAll_keepsOwners indices env st₁) fun values st₂ =>
        .pure_bind fun idx => .map fun _ => ⟨rfl, rfl⟩
  | listCount list =>
    refine .bind (eval_keepsOwners list env st) fun v st₁ => ?_
    cases v <;> first | exact .none | exact .map fun _ => ⟨rfl, rfl⟩
  | arrayLength array =>
    refine .bind (eval_keepsOwners array env st) fun v st₁ => ?_
    dsimp only
    split <;> first | exact .none | exact .map fun _ => ⟨rfl, rfl⟩
  | cast type operand =>
    exact .bind (eval_keepsOwners operand env st) fun v st₁ => .map fun _ => ⟨rfl, rfl⟩
  | uncheckedCast type operand =>
    exact .bind (eval_keepsOwners operand env st) fun v st₁ => .map fun _ => ⟨rfl, rfl⟩
  | binary op left right =>
    cases op with
    | coalesce =>
      refine .bind (eval_keepsOwners left env st) fun v st₁ => ?_
      cases v <;> first | exact eval_keepsOwners right env st₁ | exact .some rfl rfl
    | _ =>
      exact .bind (eval_keepsOwners left env st) fun a st₁ =>
        .bind (eval_keepsOwners right env st₁) fun b st₂ => .map fun _ => ⟨rfl, rfl⟩
  | sum terms =>
    exact .bind (evalAll_keepsOwners terms env st) fun values st₁ => .map fun _ => ⟨rfl, rfl⟩
  | conditional condition whenTrue whenFalse =>
    refine .bind (eval_keepsOwners condition env st) fun v st₁ => ?_
    dsimp only
    split
    · exact eval_keepsOwners whenTrue env st₁
    · exact eval_keepsOwners whenFalse env st₁
    · exact .none
  | byRef place => exact .none
  | call f arguments =>
    exact .bind (evalAll_keepsOwners arguments env st) fun values st₁ =>
      call?_keepsOwners m f values st₁
  | invoke receiver method arguments =>
    have hread : ∀ tag form numbers, KeepsOwners st (st.read? tag form numbers) := by
      intro tag form numbers
      unfold State.read?
      split
      · exact .none
      · split
        · exact .some rfl rfl
        · exact .none
    unfold Expr.eval
    split <;> rename_i heq <;>
      first
      | exact .none
      | cases heq
    · exact .pure_bind fun numbers => hread _ _ _
    · rename_i value spelled
      exact .bind (eval_keepsOwners value env _) fun v st₁ =>
        .pure_bind fun numbers => .some rfl rfl
  | defaultOf type => exact .some rfl rfl
  | newObject type arguments =>
    exact .bind (evalAll_keepsOwners arguments env st) fun values st₁ =>
      construct?_keepsOwners m lib type values st₁
  | newArray element dims inner => exact .some rfl rfl
theorem evalAll_keepsOwners (es : List Expr) (env : Env) (st : State) :
    KeepsOwners st (evalAll m lib env es st) := by
  cases es with
  | nil => exact .some rfl rfl
  | cons e es =>
    exact .bind (eval_keepsOwners e env st) fun v st₁ =>
      .bind (evalAll_keepsOwners es env st₁) fun rest st₂ => .some rfl rfl
end
end
end InteropGen.CSharp

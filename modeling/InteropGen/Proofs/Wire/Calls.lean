import InteropGen.Proofs.Machine.Nest
import InteropGen.Proofs.OptionMap

/-!
# Calls of the wire codec in a body

What the body of a codec method asks of the runtime, with its loops unrolled: a sequence of calls,
each with the place of the object that its value is taken from or put into. Only bodies that do
nothing else have such a sequence; the allocation of arrays is let pass, as it moves nothing.

* `bodyCalls?` — the calls of a body;
* `bodyCalls_sound` — an execution of the body makes these calls and no others.
-/

set_option autoImplicit false

namespace InteropGen.CSharp

/-- A place of the object: a field, or the element of it at an index tuple. -/
structure Location where
  field : String
  indices : List Nat
  deriving DecidableEq, Repr

/-- The end of the wire that a body is at. -/
inductive WireSide where
  | writer | reader
  deriving DecidableEq, Repr

/-- A call of the runtime, without the value that it moves. -/
structure WireCall where
  tag : WireTag
  form : WireForm
  arguments : List Nat
  location : Location
  deriving DecidableEq, Repr

/-- The number that a loop counter stands at. -/
def counterAt? (env : Env) : Expr → Option Nat
  | .var (.counter depth) => env.lookup (.counter depth) >>= Value.index?
  | _ => none

/-- The place that an expression denotes. Indices of an element may be given at once or one after the
other. -/
def Expr.location? (env : Env) : Expr → Option Location
  | .field .value name => some ⟨name, []⟩
  | .index base indices => do
    let place ← base.location? env
    let idx ← indices.mapM (counterAt? env)
    return ⟨place.field, place.indices ++ idx⟩
  | _ => none

/-- An expression without the cast around it. -/
def Expr.operand : Expr → Expr
  | .cast _ e => e
  | e => e

/-- The calls of a statement that is no loop. -/
def Stmt.leafCalls? (side : WireSide) (env : Env) : Stmt → Option (List WireCall)
  | .run (.invoke (.var .writer) (.write tag form) (value :: arguments)) => do
    guard (side = .writer)
    let arguments ← arguments.mapM Expr.numeral?
    let location ← value.operand.location? env
    return [⟨tag, form, arguments, location⟩]
  | .assign place value => do
    let location ← place.location? env
    match value.operand with
    | .invoke (.var .reader) (.read tag form) arguments => do
      guard (side = .reader)
      let arguments ← arguments.mapM Expr.numeral?
      return [⟨tag, form, arguments, location⟩]
    | .newArray _ _ _ => return []
    | _ => none
  | _ => none

mutual

/-- The calls of a statement, inside loops whose counters have values. -/
def Stmt.calls? (side : WireSide) : Stmt → Env → Option (List WireCall)
  | .countUp depth (.nat n) body, env =>
    ((List.range n).mapM fun (i : Nat) => bodyCalls? side body ((.counter depth, .int i) :: env)).map
      List.flatten
  | s, env => s.leafCalls? side env

/-- The calls of statements one after the other. -/
def bodyCalls? (side : WireSide) : List Stmt → Env → Option (List WireCall)
  | [], _ => some []
  | s :: rest, env => do
    let calls ← s.calls? side env
    let more ← bodyCalls? side rest env
    return calls ++ more

end

/-- An item was written, or can be read, by a call. -/
structure WireItem.Answers (item : WireItem) (call : WireCall) : Prop where
  tag : item.tag = call.tag
  form : item.form = call.form
  arguments : item.arguments = call.arguments

/-- The wire before and after calls that are made at one end of it. -/
def Moves (side : WireSide) (calls : List WireCall) (before after : List WireItem) : Prop :=
  ∃ items, List.Forall₂ WireItem.Answers items calls ∧
    match side with
    | .writer => after = before ++ items
    | .reader => before = items ++ after

namespace Moves

variable {side : WireSide} {a b c : List WireItem} {calls more : List WireCall}

theorem nil (side : WireSide) (wire : List WireItem) : Moves side [] wire wire := by
  refine ⟨[], .nil, ?_⟩
  cases side
  · exact (List.append_nil wire).symm
  · exact (List.nil_append wire).symm

theorem append (h : Moves side calls a b) (h' : Moves side more b c) :
    Moves side (calls ++ more) a c := by
  obtain ⟨items, hitems, hmove⟩ := h
  obtain ⟨others, hothers, hmove'⟩ := h'
  cases side with
  | writer =>
    refine ⟨items ++ others, List.rel_append hitems hothers, ?_⟩
    simp only at hmove hmove' ⊢
    rw [hmove', hmove, List.append_assoc]
  | reader =>
    refine ⟨items ++ others, List.rel_append hitems hothers, ?_⟩
    simp only at hmove hmove' ⊢
    rw [hmove, hmove', List.append_assoc]

end Moves

section
variable (m : Machine) (lib : Library)

theorem bound_counterAt {env : Env} {e : Expr} {i : Nat} (h : counterAt? env e = some i) :
    Bound m lib env e (.int i) := by
  cases e with
  | var name =>
    cases name with
    | counter depth =>
      rw [counterAt?, Option.bind_eq_bind, Option.bind_eq_some_iff] at h
      obtain ⟨v, hlookup, hindex⟩ := h
      cases v with
      | int n =>
        have hn : 0 ≤ n ∧ n.toNat = i := by simpa [Value.index?] using hindex
        rw [← hn.2, Int.toNat_of_nonneg hn.1]
        exact bound_local m lib (by simp) hlookup
      | _ => cases hindex
    | _ => cases h
  | _ => cases h

theorem evalAll_counters {env : Env} {indices : List Expr} {idx : List Nat}
    (h : indices.mapM (counterAt? env) = some idx) (st : State) :
    evalAll m lib env indices st = some (idx.map fun (i : Nat) => .int i, st) := by
  apply evalAll_bound
  rw [List.forall₂_map_right_iff]
  exact ((option_mapM_eq_some_iff _ _ _).mp h).imp fun _ _ => bound_counterAt m lib

/-- Reading a place changes nothing. -/
theorem eval_location {env : Env} {e : Expr} {place : Location} (h : e.location? env = some place)
    {st st' : State} {v : Value} (heval : e.eval m lib env st = some (v, st')) : st' = st := by
  induction e using Expr.location?.induct generalizing place v st' with
  | case1 name =>
    simp only [Expr.eval, Option.map_eq_some_iff, Prod.mk.injEq] at heval
    obtain ⟨_, _, _, hst⟩ := heval
    exact hst.symm
  | case2 base indices ih =>
    simp only [Expr.location?, Option.bind_eq_bind, Option.bind_eq_some_iff] at h
    obtain ⟨outer, hbase, idx, hidx, _⟩ := h
    simp only [Expr.eval, Option.bind_eq_bind, Option.bind_eq_some_iff] at heval
    obtain ⟨⟨v₁, st₁⟩, heval₁, heval⟩ := heval
    rw [ih hbase heval₁, evalAll_counters m lib hidx] at heval
    obtain ⟨_, hpair, _, _, heval⟩ := heval
    cases hpair
    simp only [Option.map_eq_some_iff, Prod.mk.injEq] at heval
    obtain ⟨_, _, _, hst⟩ := heval
    exact hst.symm
  | case3 e hfield hindex =>
    simp only [Expr.location?] at h
    cases h

/-- An assignment to a place changes no variable and moves nothing. -/
theorem assign_location {env env' : Env} {e : Expr} {place : Location}
    (h : e.location? env = some place) {st st' : State} {x : Value}
    (hassign : e.assign m lib x env st = some (env', st')) : env' = env ∧ st'.wire = st.wire := by
  induction e using Expr.location?.induct generalizing place x st with
  | case1 name =>
    simp only [Expr.assign, Option.map_eq_some_iff, Prod.mk.injEq] at hassign
    obtain ⟨_, _, henv, hst⟩ := hassign
    exact ⟨henv.symm, by rw [← hst]; rfl⟩
  | case2 base indices ih =>
    simp only [Expr.location?, Option.bind_eq_bind, Option.bind_eq_some_iff] at h
    obtain ⟨outer, hbase, idx, hidx, _⟩ := h
    simp only [Expr.assign, Option.bind_eq_bind, Option.bind_eq_some_iff] at hassign
    obtain ⟨⟨v₁, st₁⟩, heval₁, hassign⟩ := hassign
    rw [eval_location m lib hbase heval₁, evalAll_counters m lib hidx] at hassign
    obtain ⟨_, hpair, _, _, changed, _, hassign⟩ := hassign
    cases hpair
    exact ih hbase hassign
  | case3 e hfield hindex =>
    simp only [Expr.location?] at h
    cases h

theorem eval_operand {env : Env} {e : Expr} {place : Location}
    (h : e.operand.location? env = some place) {st st' : State} {v : Value}
    (heval : e.eval m lib env st = some (v, st')) : st' = st := by
  cases e with
  | cast type inner =>
    simp only [Expr.eval, Option.bind_eq_bind, Option.bind_eq_some_iff] at heval
    obtain ⟨⟨v₁, st₁⟩, heval₁, hcast⟩ := heval
    rw [eval_location m lib h heval₁] at hcast
    simp only [Option.map_eq_some_iff, Prod.mk.injEq] at hcast
    obtain ⟨_, _, _, hst⟩ := hcast
    exact hst.symm
  | _ => exact eval_location m lib h heval

/-- A call of the reader takes the first item off the wire, whatever cast is around it. -/
theorem eval_read {env : Env} {value : Expr} {tag : WireTag} {form : WireForm}
    {spelled : List Expr} {arguments : List Nat}
    (hvalue : value.operand = .invoke (.var .reader) (.read tag form) spelled)
    (harguments : spelled.mapM Expr.numeral? = some arguments) {st st' : State} {v : Value}
    (heval : value.eval m lib env st = some (v, st')) (place : Location) :
    Moves .reader [⟨tag, form, arguments, place⟩] st.wire st'.wire := by
  have hread : ∀ v st', (Expr.invoke (.var .reader) (.read tag form) spelled).eval m lib env st =
      some (v, st') → Moves .reader [⟨tag, form, arguments, place⟩] st.wire st'.wire := by
    intro v st' h
    simp only [Expr.eval, harguments, Option.bind_eq_bind, Option.bind_some, State.read?] at h
    split at h
    · cases h
    · rename_i item rest hwire
      split at h
      · rename_i hitem
        cases h
        obtain ⟨htag, hform, hargs⟩ := hitem
        exact ⟨[item], .cons ⟨htag, hform, hargs⟩ .nil, hwire⟩
      · cases h
  cases value with
  | cast type inner =>
    simp only [Expr.operand] at hvalue
    subst hvalue
    simp only [Expr.eval, Option.bind_eq_bind, Option.bind_eq_some_iff] at heval
    obtain ⟨⟨v₁, st₁⟩, heval₁, hcast⟩ := heval
    simp only [Option.map_eq_some_iff, Prod.mk.injEq] at hcast
    obtain ⟨_, _, _, hst⟩ := hcast
    rw [← hst]
    exact hread v₁ st₁ (by
      simp only [Expr.eval, Option.bind_eq_bind, Option.bind_eq_some_iff]
      exact heval₁)
  | _ =>
    simp only [Expr.operand] at hvalue
    rw [hvalue] at heval
    exact hread v st' heval

theorem leafCalls_sound {side : WireSide} {env env' : Env} {s : Stmt} {calls : List WireCall}
    (h : s.leafCalls? side env = some calls) {st st' : State}
    (hexec : s.exec m lib env st = some (env', st')) :
    env' = env ∧ Moves side calls st.wire st'.wire := by
  unfold Stmt.leafCalls? at h
  split at h
  case h_1 tag form value spelled =>
    simp only [Option.bind_eq_bind, Option.bind_eq_some_iff, Option.guard_eq_some'] at h
    obtain ⟨_, hside, arguments, harguments, place, hplace, hcalls⟩ := h
    subst hside
    cases hcalls
    simp only [Stmt.exec, Expr.run, Expr.eval, harguments, Option.bind_eq_bind, Option.bind_some,
      Option.bind_eq_some_iff] at hexec
    obtain ⟨_, ⟨⟨v, st₁⟩, hvalue, hwritten⟩, hresult⟩ := hexec
    have hst := eval_operand m lib hplace hvalue
    subst hst
    cases hwritten
    cases hresult
    exact ⟨rfl, [⟨tag, form, arguments, v⟩], .cons ⟨rfl, rfl, rfl⟩ .nil, rfl⟩
  case h_2 place value =>
    simp only [Option.bind_eq_bind, Option.bind_eq_some_iff] at h
    obtain ⟨location, hplace, h⟩ := h
    simp only [Stmt.exec, Option.bind_eq_bind, Option.bind_eq_some_iff] at hexec
    obtain ⟨⟨v, st₁⟩, hvalue, hassign⟩ := hexec
    obtain ⟨henv, hwire⟩ := assign_location m lib hplace hassign
    refine ⟨henv, ?_⟩
    rw [hwire]
    split at h
    case h_1 tag form spelled hoperand =>
      simp only [Option.bind_eq_some_iff, Option.guard_eq_some'] at h
      obtain ⟨_, hside, arguments, harguments, hcalls⟩ := h
      subst hside
      cases hcalls
      exact eval_read m lib hoperand harguments hvalue location
    case h_2 element dims inner hoperand =>
      cases h
      cases value with
      | cast type e =>
        simp only [Expr.operand] at hoperand
        subst hoperand
        simp only [Expr.eval, Option.bind_eq_bind, Option.bind_some, Option.map_eq_some_iff,
          Prod.mk.injEq] at hvalue
        obtain ⟨_, _, _, hst⟩ := hvalue
        rw [← hst]
        exact .nil side st.wire
      | _ =>
        simp only [Expr.operand] at hoperand
        rw [hoperand] at hvalue
        cases hvalue
        exact .nil side st.wire
    case h_3 => cases h
  case h_3 => cases h

/-- The rounds of a loop, one after the other. -/
theorem rounds_sound {side : WireSide} {depth n : Nat} {body : List Stmt} {env : Env}
    (hbody : ∀ (i : Nat) calls env' st st', bodyCalls? side body ((.counter depth, .int i) :: env) =
      some calls → execAll m lib body ((.counter depth, .int i) :: env) st = some (env', st') →
      env' = (.counter depth, .int i) :: env ∧ Moves side calls st.wire st'.wire)
    (rounds : List Nat) (calls : List (List WireCall))
    (h : rounds.mapM (fun (i : Nat) => bodyCalls? side body ((.counter depth, .int i) :: env)) =
      some calls) {env' : Env} {st st' : State}
    (hexec : rounds.foldlM (loopRound m lib depth (.nat n) body n) (env, st) = some (env', st')) :
    env' = env ∧ Moves side calls.flatten st.wire st'.wire := by
  induction rounds generalizing calls st with
  | nil =>
    cases h
    cases hexec
    exact ⟨rfl, .nil side _⟩
  | cons i rest ih =>
    rw [List.mapM_cons] at h
    simp only [Option.bind_eq_bind, Option.bind_eq_some_iff] at h
    obtain ⟨first, hfirst, others, hothers, hcalls⟩ := h
    cases hcalls
    rw [List.foldlM_cons] at hexec
    simp only [loopRound, Option.bind_eq_bind, Option.bind_eq_some_iff] at hexec
    obtain ⟨⟨env₂, st₂⟩, ⟨⟨env₁, st₁⟩, hround, ⟨v, st₁'⟩, hbound, hkeep⟩, hrest⟩ := hexec
    obtain ⟨rfl, hmoves⟩ := hbody i first env₁ st st₁ hfirst hround
    -- the numeral that bounds the loop changes nothing
    have hst : st₁' = st₁ := by
      simp only [Expr.eval, Option.map_eq_some_iff, Prod.mk.injEq] at hbound
      obtain ⟨_, _, _, hst⟩ := hbound
      exact hst.symm
    have hleave : Env.leave env ((.counter depth, .int i) :: env) = env :=
      Env.leave_append env [(.counter depth, .int i)]
    split at hkeep
    · cases hkeep
      rw [hleave] at hrest
      obtain ⟨henv, hothersMoves⟩ := ih others hothers hrest
      rw [hst] at hothersMoves
      exact ⟨henv, hmoves.append hothersMoves⟩
    · cases hkeep

mutual

theorem calls_sound (side : WireSide) (s : Stmt) (env env' : Env) (calls : List WireCall)
    (st st' : State) (h : s.calls? side env = some calls)
    (hexec : s.exec m lib env st = some (env', st')) :
    env' = env ∧ Moves side calls st.wire st'.wire := by
  unfold Stmt.calls? at h
  split at h
  case h_1 depth n body =>
    rw [Option.map_eq_some_iff] at h
    obtain ⟨rounds, hrounds, hcalls⟩ := h
    subst hcalls
    simp only [Stmt.exec, Option.bind_eq_bind, Option.bind_eq_some_iff] at hexec
    obtain ⟨⟨v, st₁⟩, hbound, k, hk, hfold⟩ := hexec
    simp only [Expr.eval, Option.map_eq_some_iff, Prod.mk.injEq] at hbound
    obtain ⟨_, hv, rfl, rfl⟩ := hbound
    have hint : k = n := by
      unfold int32? at hv
      split at hv
      · cases hv
        cases hk
        rfl
      · cases hv
    subst hint
    exact rounds_sound m lib (fun i calls env' st st' => bodyCalls_sound side body _ env' calls st st')
      (List.range n) rounds hrounds hfold
  case h_2 => exact leafCalls_sound m lib h hexec

/-- A body whose calls are known makes these calls, and no others, whenever it runs to its end. -/
theorem bodyCalls_sound (side : WireSide) (body : List Stmt) (env env' : Env)
    (calls : List WireCall) (st st' : State) (h : bodyCalls? side body env = some calls)
    (hexec : execAll m lib body env st = some (env', st')) :
    env' = env ∧ Moves side calls st.wire st'.wire := by
  cases body with
  | nil =>
    cases h
    cases hexec
    exact ⟨rfl, .nil side _⟩
  | cons s rest =>
    simp only [bodyCalls?, Option.bind_eq_bind, Option.bind_eq_some_iff] at h
    obtain ⟨first, hfirst, more, hmore, hcalls⟩ := h
    cases hcalls
    simp only [execAll, Option.bind_eq_bind, Option.bind_eq_some_iff] at hexec
    obtain ⟨⟨env₁, st₁⟩, hs, hrest⟩ := hexec
    obtain ⟨rfl, hmoves⟩ := calls_sound side s env env₁ first st st₁ hfirst hs
    obtain ⟨henv, hmovesRest⟩ := bodyCalls_sound side rest _ env' more st₁ st' hmore hrest
    exact ⟨henv, hmoves.append hmovesRest⟩

end

end

end InteropGen.CSharp

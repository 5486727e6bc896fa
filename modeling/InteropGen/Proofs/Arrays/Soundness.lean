import InteropGen.Proofs.Arrays.Described
import InteropGen.Proofs.Machine.Owners

/-!
# Traces and execution

What a trace says of the rows of a property holds when the statements are executed. Where the rows
after the events are known, the property has these rows after the statements, on every machine and
whatever the statements move. A place that can be reached according to the rows is there for the
machine as well.

* `Leaves` — what execution leaves of variables, of the transfer struct, and of the property;
* `eval_reached`, `assign_reached` — the places of a trace in execution;
* `leaves_leaf`, `leaves_rounds` — one statement, and the rounds of a loop;
* `bodyTrace_sound` — the run, by induction over the statements.
-/

set_option autoImplicit false

namespace InteropGen.CSharp

/-- Whether a place is in the transfer struct. -/
def Spot.inTransfer : Spot → Bool
  | .element .transfer _ _ => true
  | _ => false

/-- Whether an event leaves the transfer struct as it is. -/
def Event.sparesTransfer : Event → Bool
  | .allocate place _ _ _ | .reserve place _ _ | .assign place _ | .fill place _ =>
    !place.inTransfer
  | .copy _ target _ => target.1 = .value
  | .visit _ => true

section
variable (m : Machine) (lib : Library) {name : String} {r r' x : Rows} {sc : Scope}

/-- What statements leave: variables and the transfer struct as they were, but for new variables, and
a property with the given rows. -/
structure Leaves (name : String) (r : Rows) (env env' : Env) (st st' : State) : Prop where
  grown : env.Grown env'
  wrapper : st'.wrapper = st.wrapper
  held : r.HeldBy name st'.self

section
variable {env env' : Env} {st st' : State}

/-- A place that can be reached in the tree is read by the machine. -/
theorem eval_reached {place : Expr} {groups : List (List Nat)} (fits : sc.Fits env st.wrapper)
    (hspot : place.spot? sc = some (.element .value name groups)) (held : r.HeldBy name st.self)
    (hreach : r.reach? groups = some x) :
    ∃ v, place.eval m lib env st = some (v, st) ∧ x.Describes v := by
  obtain ⟨v, hv, hdescribes⟩ := held
  obtain ⟨w, hw, hx⟩ := hdescribes.reach groups hreach
  refine ⟨w, ?_, hx⟩
  rw [eval_spot m lib fits place hspot, State.at?, State.get, hv, Option.bind_some, hw]
  rfl

/-- A place that can be replaced in the tree is assigned by the machine. -/
theorem assign_reached {place : Expr} {groups : List (List Nat)} {w : Value}
    (fits : sc.Fits env st.wrapper)
    (hspot : place.spot? sc = some (.element .value name groups)) (held : r.HeldBy name st.self)
    (hx : x.Describes w) (hput : Rows.put? x r groups = some r') :
    ∃ st', place.assign m lib w env st = some (env, st') ∧ Leaves name r' env env st st' := by
  obtain ⟨v, hv, hdescribes⟩ := held
  obtain ⟨v', hv', hdescribes'⟩ := hdescribes.put hx groups hput
  cases hself : st.self with
  | record path fields =>
    refine ⟨st.set .value (.record path (Function.update fields name v')), ?_, .refl env, rfl,
      v', by simp [State.set, Value.field?], hdescribes'⟩
    rw [assign_spot m lib fits place hspot, State.put?, State.get, hv, Option.bind_some, hv', hself]
    rfl
  | _ =>
    rw [hself] at hv
    cases hv

/-- An assignment to a place outside of the transfer struct. -/
theorem leaves_assign {place : Expr} {spot : Spot} {w : Value} (fits : sc.Fits env st.wrapper)
    (hspot : place.spot? sc = some spot) (hspares : spot.inTransfer = false)
    (held : r.HeldBy name st.self) (hx : x.Describes w) (hstore : r.store? name x spot = some r')
    (hassign : place.assign m lib w env st = some (env', st')) :
    Leaves name r' env env' st st' := by
  cases spot with
  | slot field type offset =>
    rw [assign_slot m lib place hspot] at hassign
    cases hassign
  | element owner field groups =>
    cases owner with
    | transfer => cases hspares
    | value =>
      by_cases hfield : field = name
      · subst hfield
        simp only [Rows.store?, Spot.within?, if_true] at hstore
        obtain ⟨after, hafter, hleaves⟩ := assign_reached m lib fits hspot held hx hstore
        rw [hafter] at hassign
        cases hassign
        exact hleaves
      · simp only [Rows.store?, Spot.within?, if_neg hfield, Option.some.injEq] at hstore
        subst hstore
        rw [assign_spot m lib fits place hspot] at hassign
        obtain ⟨after, hput, heq⟩ := Option.map_eq_some_iff.mp hassign
        cases heq
        obtain ⟨hwrapper, hothers⟩ := State.put?_value hput
        obtain ⟨v, hv, hdescribes⟩ := held
        exact ⟨.refl env, hwrapper, v, (hothers name (Ne.symm hfield)).trans hv, hdescribes⟩

/-- The rows of a new array. -/
theorem after?_allocate {place : Spot} {element : Ty} {dims : List Nat} {inner : Nat}
    (h : r.after? name (.allocate place element dims inner) = some r') :
    ∃ x, r.store? name x place = some r' ∧ ∀ z, x.Describes (newArrayValue z dims) := by
  have hother : place.within? name = none → r = r' →
      ∃ x, r.store? name x place = some r' ∧ ∀ z, x.Describes (newArrayValue z dims) := by
    rintro houtside rfl
    exact ⟨.leaf, by simp [Rows.store?, houtside], fun z => .leaf _⟩
  rcases dims with _ | ⟨d, _ | ⟨d', more⟩⟩
  · simp only [Rows.after?, Option.ite_none_right_eq_some, Option.some.injEq] at h
    exact hother h.1 h.2
  · refine ⟨_, h, fun z => .row _ _ _ (by simp [newArrayValue]) ?_⟩
    intro i cell item hcell _
    rw [List.eq_of_mem_replicate (List.mem_of_getElem? hcell)]
    exact .leaf item
  · simp only [Rows.after?, Option.ite_none_right_eq_some, Option.some.injEq] at h
    exact hother h.1 h.2

/-- What an assignment stores, by its event. -/
theorem assignTrace_stores {place value : Expr} {events : List Event}
    (h : place.assignTrace? sc value = some events)
    (hspares : ∀ event ∈ events, event.sparesTransfer = true)
    (hrun : r.run? name events = some r') :
    ∃ spot x, place.spot? sc = some spot ∧ spot.inTransfer = false ∧
      r.store? name x spot = some r' ∧
      ∀ env st v st', value.eval m lib env st = some (v, st') → x.Describes v := by
  unfold Expr.assignTrace? at h
  split at h
  · rename_i element dims inner
    obtain ⟨spot, hspot, heq⟩ := Option.bind_eq_some_iff.mp h
    cases heq
    have hobject : spot.inTransfer = false := by simpa [Event.sparesTransfer] using hspares
    rw [Rows.run?_singleton] at hrun
    obtain ⟨x, hstore, hdescribes⟩ := after?_allocate hrun
    refine ⟨spot, x, hspot, hobject, hstore, ?_⟩
    intro env st v st' hv
    rw [Expr.eval] at hv
    cases hv
    exact hdescribes _
  · split at h
    · simp only [Option.bind_eq_bind, Option.bind_eq_some_iff] at h
      obtain ⟨bytes, _, spot, hspot, type, _, heq⟩ := h
      cases heq
      have hobject : spot.inTransfer = false := by simpa [Event.sparesTransfer] using hspares
      refine ⟨spot, .leaf, hspot, hobject, ?_, fun _ _ v _ _ => .leaf v⟩
      simpa [Rows.after?] using hrun
    · cases h
  · simp only [Option.bind_eq_bind, Option.bind_eq_some_iff] at h
    obtain ⟨spot, hspot, sources, _, heq⟩ := h
    cases heq
    have hobject : spot.inTransfer = false := by simpa [Event.sparesTransfer] using hspares
    refine ⟨spot, .leaf, hspot, hobject, ?_, fun _ _ v _ _ => .leaf v⟩
    simp only [Rows.run?_singleton, Rows.after?, Option.ite_none_right_eq_some] at hrun
    exact hrun.2

theorem leaves_eval {e : Expr} {v : Value} (held : r.HeldBy name st.self)
    (heval : e.eval m lib env st = some (v, st')) : Leaves name r env env st st' := by
  have same := eval_keepsOwners m lib e env st v st' heval
  exact ⟨.refl env, same.wrapper, same.self ▸ held⟩

theorem Leaves.trans {env'' : Env} {st'' : State} (h : Leaves name r env env' st st')
    (h' : Leaves name r' env' env'' st' st'') : Leaves name r' env env'' st st'' :=
  ⟨h.grown.trans h'.grown, h'.wrapper.trans h.wrapper, h'.held⟩

/-- Reading changes no rows. -/
theorem run?_visits {places : List Spot} (h : r.run? name (visits places) = some r') : r' = r := by
  cases places with
  | nil =>
    cases h
    rfl
  | cons place rest =>
    simp only [visits, Rows.run?_singleton, Rows.after?, Option.ite_none_right_eq_some,
      Option.some.injEq] at h
    exact h.2.symm

/-- A copy of the first items of a field. -/
theorem leaves_arrayCopy {source target : Owner} {field field' : String} {n : Nat}
    (fits : sc.Fits env st.wrapper) (htarget : target = .value) (held : r.HeldBy name st.self)
    (hrun : r.after? name (.copy (source, field) (target, field') n) = some r')
    (hexec : (Expr.call .arrayCopy [.field source field, .field target field', .nat n]).run m lib env
      st = some (env', st')) :
    Leaves name r' env env' st st' := by
  subst htarget
  simp only [Expr.run, Expr.eval, Option.bind_eq_bind, Option.bind_eq_some_iff,
    Option.map_eq_some_iff] at hexec
  obtain ⟨_, ⟨v, hv, rfl⟩, _, ⟨w, hw, rfl⟩, _, ⟨k, hk, rfl⟩, hcopy⟩ := hexec
  have hcount : k.index? = some n := by
    unfold int32? at hk
    split at hk
    · cases hk
      exact Value.index?_natCast n
    · cases hk
  simp only [hcount] at hcopy
  split at hcopy
  · rename_i items old limit heq
    cases heq
    split at hcopy
    · rename_i hle
      simp only [Rows.after?, Option.ite_none_right_eq_some, Option.some.injEq, Prod.mk.injEq,
        true_and] at hrun
      have hstore : ∃ x : Rows, x.Describes (.array 1 (items.take n ++ old.drop n)) ∧
          r.store? name x (.element .value field' []) = some r' := by
        by_cases hsame : field' = name
        · obtain ⟨v, hfield, hdescribes⟩ := held
          rw [State.get, hsame, hfield] at hw
          cases hw
          refine ⟨r.clear n, hdescribes.clear hle.1, ?_⟩
          rw [← hrun.2, if_pos hsame]
          simp [Rows.store?, Spot.within?, hsame, Rows.put?, putAlong]
        · refine ⟨.leaf, .leaf _, ?_⟩
          rw [← hrun.2, if_neg hsame]
          simp [Rows.store?, Spot.within?, hsame]
      obtain ⟨x, hx, hstored⟩ := hstore
      exact leaves_assign m lib fits rfl rfl held hx hstored hcopy
    · cases hcopy
  · cases hcopy

/-- A structure written to native memory. -/
theorem leaves_structureToPtr {arguments : List Expr} (held : r.HeldBy name st.self)
    (hexec : (Expr.call .structureToPtr arguments).run m lib env st = some (env', st')) :
    Leaves name r env env' st st' := by
  simp only [Expr.run, Option.bind_eq_bind, Option.bind_eq_some_iff] at hexec
  obtain ⟨⟨v, st₁⟩, heval, heq⟩ := hexec
  cases heq
  exact leaves_eval m lib held heval

/-- A handle put on the release list. -/
theorem leaves_add {item : Expr} (held : r.HeldBy name st.self)
    (hexec : (Expr.invoke (.var .toRelease) .add [item]).run m lib env st = some (env', st')) :
    Leaves name r env env' st st' := by
  simp only [Expr.run, Option.bind_eq_bind, Option.bind_eq_some_iff] at hexec
  obtain ⟨⟨v, st₁⟩, heval, hadded⟩ := hexec
  have hread := leaves_eval m lib held heval
  split at hadded
  · cases hadded
    exact ⟨.refl env, hread.wrapper, hread.held⟩
  · cases hadded

/-- A struct put into a slot. Its object is given back to the place that it was taken from. -/
theorem leaves_toNative {object : Expr} {field : String} {groups : List (List Nat)}
    (fits : sc.Fits env st.wrapper) (hspot : object.spot? sc = some (.element .value field groups))
    (held : r.HeldBy name st.self)
    (hrun : r.after? name (.visit [.element .value field groups]) = some r')
    (hexec : (Expr.invoke object .toNative [.byRef (.var .element), .var .toRelease]).run m lib env
      st = some (env', st')) :
    Leaves name r' env env' st st' := by
  simp only [Expr.run, Option.bind_eq_bind, Option.bind_eq_some_iff] at hexec
  obtain ⟨⟨v, st₁⟩, hobject, ⟨w, st₂⟩, hnative, callee, hcallee, ⟨env₁, st₃⟩, hlocal, hback⟩ := hexec
  have hrecord : ∃ path fields, v = .record path fields := by
    cases v with
    | record path fields => exact ⟨path, fields, rfl⟩
    | _ => cases hcallee
  obtain ⟨path, fields, rfl⟩ := hrecord
  obtain rfl : st = st₁ := by
    rw [eval_spot m lib fits object hspot] at hobject
    obtain ⟨_, _, heq⟩ := Option.map_eq_some_iff.mp hobject
    exact congrArg Prod.snd heq
  obtain ⟨env₁, henv, heq⟩ := Option.map_eq_some_iff.mp hlocal
  cases heq
  have hread := leaves_eval m lib held hnative
  have hgrown : env.Grown env₁ := .of_fixed (Env.assign?_fixed henv)
  have hcall : Leaves name r env env₁ st (Machine.returning st₂ callee) :=
    ⟨hgrown, hread.wrapper, hread.held⟩
  simp only [Rows.after?, List.all_cons, List.all_nil, Bool.and_true,
    Option.ite_none_right_eq_some, Option.some.injEq] at hrun
  obtain ⟨hreaches, rfl⟩ := hrun
  have hstore : r.store? name .leaf (.element .value field groups) = some r := by
    by_cases hfield : field = name
    · subst hfield
      simp only [Rows.reaches, Spot.within?, if_true, Option.isSome_iff_exists] at hreaches
      obtain ⟨x, hreach⟩ := hreaches
      obtain ⟨v, hv, hx⟩ := eval_reached m lib fits hspot held hreach
      rw [hobject] at hv
      cases hv
      -- an object is no row
      cases hx
      simp only [Rows.store?, Spot.within?, if_true]
      exact Rows.put?_reached hreach
    · simp [Rows.store?, Spot.within?, hfield]
  have hput := leaves_assign m lib ((fits.grown hgrown).wrapper_eq hcall.wrapper) hspot rfl hcall.held
    (.leaf _) hstore hback
  exact hcall.trans hput

/-- An object filled in, which is in a local variable. -/
theorem leaves_fromNative_local {native : Expr} (held : r.HeldBy name st.self)
    (hexec : (Expr.invoke (.var .element) .fromNative [native]).run m lib env st =
      some (env', st')) :
    Leaves name r env env' st st' := by
  simp only [Expr.run, Option.bind_eq_bind, Option.bind_eq_some_iff] at hexec
  obtain ⟨⟨v, st₁⟩, hobject, ⟨w, st₂⟩, hnative, callee, _, hassign⟩ := hexec
  have hread := leaves_eval m lib held hobject
  have hboth := leaves_eval m lib hread.held hnative
  obtain ⟨env', henv, heq⟩ := Option.map_eq_some_iff.mp hassign
  cases heq
  exact ⟨.of_fixed (Env.assign?_fixed henv), hboth.wrapper.trans hread.wrapper, hboth.held⟩

/-- An object filled in, which is in a place. -/
theorem leaves_fromNative {object native : Expr} {spot : Spot} (fits : sc.Fits env st.wrapper)
    (hspot : object.spot? sc = some spot) (hspares : spot.inTransfer = false)
    (held : r.HeldBy name st.self) (hstore : r.store? name .leaf spot = some r')
    (hexec : (Expr.invoke object .fromNative [native]).run m lib env st = some (env', st')) :
    Leaves name r' env env' st st' := by
  simp only [Expr.run, Option.bind_eq_bind, Option.bind_eq_some_iff] at hexec
  obtain ⟨⟨v, st₁⟩, hobject, ⟨w, st₂⟩, hnative, callee, _, hassign⟩ := hexec
  have hread := leaves_eval m lib held hobject
  have hboth := hread.trans (leaves_eval m lib hread.held hnative)
  have hcall : Leaves name r env env st (Machine.returning st₂ callee) :=
    ⟨.refl env, hboth.wrapper, hboth.held⟩
  have hput := leaves_assign m lib (fits.wrapper_eq hcall.wrapper) hspot hspares hcall.held (.leaf _)
    hstore hassign
  exact hcall.trans hput

theorem isElement_eq {e : Expr} (h : e.isElement = true) : e = .var .element := by
  unfold Expr.isElement at h
  split at h
  · rfl
  · cases h

/-- A call. -/
theorem leaves_call {call : Expr} {events : List Event} (fits : sc.Fits env st.wrapper)
    (h : call.callTrace? sc = some events)
    (hspares : ∀ event ∈ events, event.sparesTransfer = true) (held : r.HeldBy name st.self)
    (hrun : r.run? name events = some r') (hexec : call.run m lib env st = some (env', st')) :
    Leaves name r' env env' st st' := by
  unfold Expr.callTrace? at h
  split at h
  · cases h
    rw [Rows.run?_singleton] at hrun
    exact leaves_arrayCopy m lib fits (by simpa [Event.sparesTransfer] using hspares) held hrun hexec
  · simp only [Option.bind_eq_bind, Option.bind_eq_some_iff] at h
    obtain ⟨_, _, spot, _, hslot⟩ := h
    split at hslot
    · split at hslot
      · cases hslot
        simp only [Rows.run?_singleton, Rows.after?, Rows.store?, Spot.within?,
          Option.ite_none_right_eq_some, Option.some.injEq] at hrun
        obtain ⟨_, rfl⟩ := hrun
        exact leaves_structureToPtr m lib held hexec
      · cases hslot
    · cases hslot
  · obtain ⟨places, _, heq⟩ := Option.bind_eq_some_iff.mp h
    cases heq
    rw [run?_visits hrun]
    exact leaves_add m lib held hexec
  · simp only [Option.bind_eq_bind, Option.bind_eq_some_iff] at h
    obtain ⟨spot, hspot, h⟩ := h
    split at h
    · split at h
      · rename_i hplace
        cases h
        rw [Rows.run?_singleton] at hrun
        rw [isElement_eq hplace] at hexec
        exact leaves_toNative m lib fits hspot held hrun hexec
      · simp only [Option.bind_eq_some_iff] at h
        obtain ⟨spot', _, h⟩ := h
        split at h
        · cases h
          simp [Event.sparesTransfer, Spot.inTransfer] at hspares
        · cases h
    · cases h
  · split at h
    · rename_i hplace
      obtain ⟨places, _, heq⟩ := Option.bind_eq_some_iff.mp h
      cases heq
      rw [run?_visits hrun]
      rw [isElement_eq hplace] at hexec
      exact leaves_fromNative_local m lib held hexec
    · simp only [Option.bind_eq_bind, Option.bind_eq_some_iff] at h
      obtain ⟨spot, hspot, sources, _, heq⟩ := h
      cases heq
      simp only [Rows.run?_singleton, Rows.after?, Option.ite_none_right_eq_some] at hrun
      exact leaves_fromNative m lib fits hspot (by simpa [Event.sparesTransfer] using hspares) held
        hrun.2 hexec
  · cases h

/-- A statement without others inside of it. -/
theorem leaves_leaf {s : Stmt} {events : List Event} (fits : sc.Fits env st.wrapper)
    (h : s.leafTrace? sc = some events)
    (hspares : ∀ event ∈ events, event.sparesTransfer = true) (held : r.HeldBy name st.self)
    (hrun : r.run? name events = some r') (hexec : s.exec m lib env st = some (env', st')) :
    Leaves name r' env env' st st' := by
  unfold Stmt.leafTrace? at h
  split at h
  · rw [Stmt.exec, Option.bind_eq_bind, Option.bind_eq_some_iff] at hexec
    obtain ⟨⟨v, st₁⟩, hvalue, hassign⟩ := hexec
    obtain ⟨spot, x, hspot, hobject, hstore, hdescribes⟩ :=
      assignTrace_stores m lib h hspares hrun
    have hread := leaves_eval m lib held hvalue
    exact hread.trans (leaves_assign m lib (fits.wrapper_eq hread.wrapper) hspot hobject hread.held
      (hdescribes env st v st₁ hvalue) hstore hassign)
  · cases h
  · rename_i hcounter
    obtain ⟨places, _, heq⟩ := Option.bind_eq_some_iff.mp h
    cases heq
    rw [run?_visits hrun]
    simp only [Stmt.exec, Option.bind_eq_bind, Option.bind_eq_some_iff] at hexec
    obtain ⟨⟨v, st₁⟩, heval, heq⟩ := hexec
    cases heq
    have hread := leaves_eval m lib held heval
    exact ⟨.push hcounter, hread.wrapper, hread.held⟩
  · rw [Stmt.exec] at hexec
    exact leaves_call m lib fits h hspares held hrun hexec
  · cases h

/-- What is known of a handle. -/
theorem eval_holds {condition : Expr} {b : Bool} {v : Value} (fits : sc.Fits env st.wrapper)
    (h : sc.holds? condition = some b) (heval : condition.eval m lib env st = some (v, st')) :
    v = .bool b ∧ st' = st := by
  unfold Scope.holds? at h
  split at h
  · rename_i field
    cases h
    simp only [Expr.eval, State.get, Option.bind_eq_bind, Option.bind_eq_some_iff,
      Option.map_eq_some_iff] at heval
    obtain ⟨_, ⟨w, hw, rfl⟩, _, hzero, x, hx, heq⟩ := heval
    cases hzero
    cases heq
    cases w with
    | handle a =>
      cases hx
      rw [fits.handles field a hw]
      refine ⟨?_, rfl⟩
      cases a <;> rfl
    | _ => cases hx
  · cases h

/-- The rounds of a loop, given what its body does. -/
theorem leaves_rounds {depth n : Nat} {body : List Stmt} (limit : Int)
    (sound : ∀ {sc : Scope} {events : List Event} {r r' : Rows} {env env' : Env} {st st' : State},
      sc.Fits env st.wrapper → bodyTrace? body sc = some events →
      (∀ event ∈ events, event.sparesTransfer = true) → r.HeldBy name st.self →
      r.run? name events = some r' → execAll m lib body env st = some (env', st') →
      Leaves name r' env env' st st')
    (rounds : List Nat) {traces : List (List Event)} (fits : sc.Fits env st.wrapper)
    (h : (rounds.mapM fun i => bodyTrace? body (sc.round depth i)) = some traces)
    (hspares : ∀ event ∈ traces.flatten, event.sparesTransfer = true)
    (held : r.HeldBy name st.self) (hrun : r.run? name traces.flatten = some r')
    (hexec : rounds.foldlM (loopRound m lib depth (.nat n) body limit) (env, st) =
      some (env', st')) :
    Leaves name r' env env' st st' := by
  induction rounds generalizing traces r env st with
  | nil =>
    cases h
    cases hrun
    cases hexec
    exact ⟨.refl _, rfl, held⟩
  | cons i rest ih =>
    simp only [List.mapM_cons, Option.bind_eq_bind, Option.bind_eq_some_iff] at h
    obtain ⟨first, hfirst, others, hothers, heq⟩ := h
    cases heq
    rw [List.flatten_cons, Rows.run?_append, Option.bind_eq_bind, Option.bind_eq_some_iff] at hrun
    obtain ⟨middle, hmiddle, hlast⟩ := hrun
    rw [List.flatten_cons] at hspares
    rw [List.foldlM_cons, Option.bind_eq_bind, Option.bind_eq_some_iff] at hexec
    obtain ⟨⟨env₁, st₁⟩, hround, hrest⟩ := hexec
    simp only [loopRound, Option.bind_eq_bind, Option.bind_eq_some_iff] at hround
    obtain ⟨⟨inner, st₂⟩, hbody, ⟨v, st₃⟩, hbound, hlimit⟩ := hround
    have hdone := sound (fits.round depth i) hfirst (fun event he => hspares event (by simp [he]))
      held hmiddle hbody
    have hread := leaves_eval m lib hdone.held hbound
    simp only [Option.ite_none_right_eq_some, Option.some.injEq, Prod.mk.injEq] at hlimit
    obtain ⟨_, rfl, rfl⟩ := hlimit
    have hturn : Leaves name middle env (Env.leave env inner) st st₃ :=
      ⟨hdone.grown.leave [_], hread.wrapper.trans hdone.wrapper, hread.held⟩
    exact hturn.trans (ih ((fits.wrapper_eq hturn.wrapper).grown hturn.grown) hothers
      (fun event he => hspares event (by simp [he])) hturn.held hlast hrest)

end

mutual

/-- A statement leaves the rows that its events say. -/
theorem trace_sound (s : Stmt) {sc : Scope} {events : List Event} {r r' : Rows} {env env' : Env}
    {st st' : State} (fits : sc.Fits env st.wrapper) (h : s.trace? sc = some events)
    (hspares : ∀ event ∈ events, event.sparesTransfer = true) (held : r.HeldBy name st.self)
    (hrun : r.run? name events = some r') (hexec : s.exec m lib env st = some (env', st')) :
    Leaves name r' env env' st st' := by
  cases s with
  | block body =>
    rw [Stmt.trace?] at h
    simp only [Stmt.exec, Option.bind_eq_bind, Option.bind_eq_some_iff] at hexec
    obtain ⟨⟨inner, st₁⟩, hbody, heq⟩ := hexec
    cases heq
    have hdone := bodyTrace_sound body fits h hspares held hrun hbody
    exact ⟨hdone.grown.leave [], hdone.wrapper, hdone.held⟩
  | when condition body =>
    simp only [Stmt.trace?, Option.bind_eq_bind, Option.bind_eq_some_iff] at h
    obtain ⟨b, hholds, h⟩ := h
    simp only [Stmt.exec, Option.bind_eq_bind, Option.bind_eq_some_iff] at hexec
    obtain ⟨⟨v, st₁⟩, hcondition, hexec⟩ := hexec
    obtain ⟨rfl, rfl⟩ := eval_holds m lib fits hholds hcondition
    cases b with
    | false =>
      cases h
      cases hrun
      cases hexec
      exact ⟨.refl _, rfl, held⟩
    | true =>
      simp only [if_true] at h
      simp only [Option.bind_eq_some_iff] at hexec
      obtain ⟨⟨inner, st₁⟩, hbody, heq⟩ := hexec
      cases heq
      have hdone := bodyTrace_sound body fits h hspares held hrun hbody
      exact ⟨hdone.grown.leave [], hdone.wrapper, hdone.held⟩
  | countUp depth bound body =>
    cases bound with
    | nat n =>
      rw [Stmt.trace?] at h
      obtain ⟨traces, htraces, rfl⟩ := Option.map_eq_some_iff.mp h
      have hfits : InInt32 n := by
        by_contra hout
        simp [Stmt.exec, Expr.eval, int32?, hout] at hexec
      rw [exec_countUp_eq m lib depth n (.nat n) body env st st (by simp [Expr.eval, hfits])] at hexec
      exact leaves_rounds m lib n (bodyTrace_sound body) (List.range n) fits htraces hspares held hrun
        hexec
    | _ => cases h
  | _ =>
    simp only [Stmt.trace?] at h
    exact leaves_leaf m lib fits h hspares held hrun hexec

/-- Statements leave the rows that their events say, whatever else they do. -/
theorem bodyTrace_sound (body : List Stmt) {sc : Scope} {events : List Event} {r r' : Rows}
    {env env' : Env} {st st' : State} (fits : sc.Fits env st.wrapper)
    (h : bodyTrace? body sc = some events)
    (hspares : ∀ event ∈ events, event.sparesTransfer = true) (held : r.HeldBy name st.self)
    (hrun : r.run? name events = some r') (hexec : execAll m lib body env st = some (env', st')) :
    Leaves name r' env env' st st' := by
  cases body with
  | nil =>
    cases h
    cases hrun
    cases hexec
    exact ⟨.refl env, rfl, held⟩
  | cons s rest =>
    simp only [bodyTrace?, Option.bind_eq_bind, Option.bind_eq_some_iff] at h
    obtain ⟨first, hfirst, others, hothers, heq⟩ := h
    cases heq
    rw [Rows.run?_append, Option.bind_eq_bind, Option.bind_eq_some_iff] at hrun
    obtain ⟨middle, hmiddle, hlast⟩ := hrun
    simp only [execAll, Option.bind_eq_bind, Option.bind_eq_some_iff] at hexec
    obtain ⟨⟨env₁, st₁⟩, hstep, hrest⟩ := hexec
    have hdone := trace_sound s fits hfirst (fun event he => hspares event (by simp [he])) held
      hmiddle hstep
    exact hdone.trans (bodyTrace_sound rest
      (((fits.wrapper_eq hdone.wrapper).grown hdone.grown).after s) hothers
      (fun event he => hspares event (by simp [he])) hdone.held hlast hrest)

end

end

end InteropGen.CSharp

import InteropGen.Proofs.Transfer.Buffers
import InteropGen.Proofs.Transfer.Compiled
import InteropGen.Proofs.Transfer.Handles

/-!
# The release of transfer structs

`ReleaseNative` gives back the blocks of the release list, each once, empties the list, and then
resets the handles of its transfer struct (`Resets`). The calls for nested structs find the list
empty and give back nothing.

* `exec_freeHandle`, `exec_freeReleased` — the loop that every release starts with, by its rounds;
* `ReleasedUpTo` — the invariant of the loop over the structs of an array;
* `exec_releaseNative` — the handles of one field;
* `releases` — the method of a compiled struct, by induction on how deeply structs are nested.
-/

set_option autoImplicit false

namespace InteropGen

open CSharp

/-- The memory after blocks were given back. -/
def CSharp.Memory.freeAll (mem : Memory) (blocks : List Nat) : Memory :=
  { mem with
    blocks := fun b => if b ∈ blocks then none else mem.blocks b
    freed := mem.freed ++ blocks }

theorem CSharp.Memory.freeAll_nil (mem : Memory) : mem.freeAll [] = mem := by
  simp [Memory.freeAll]

theorem CSharp.Memory.free?_eq (mem : Memory) (b : Nat) (h : (mem.blocks b).isSome) :
    mem.free? ⟨b, 0⟩ = some (mem.freeAll [b]) := by
  have hblocks : Function.update mem.blocks b none =
      fun b' => if b' ∈ [b] then none else mem.blocks b' := by
    funext b'
    by_cases heq : b' = b
    · simp [heq]
    · simp [heq]
  simp [Memory.free?, h, Memory.freeAll, hblocks]

theorem CSharp.Memory.freeAll_cons (mem : Memory) (b : Nat) (rest : List Nat) :
    (mem.freeAll [b]).freeAll rest = mem.freeAll (b :: rest) := by
  have hblocks : (fun b' => if b' ∈ rest then none else if b' ∈ [b] then none else mem.blocks b') =
      fun b' => if b' ∈ b :: rest then none else mem.blocks b' := by
    funext b'
    by_cases hrest : b' ∈ rest
    · simp [hrest]
    · by_cases heq : b' = b <;> simp [hrest, heq]
  simp only [Memory.freeAll]
  rw [hblocks, List.append_assoc, List.singleton_append]

section
variable (m : Machine) (lib : Library)

/-- A round over the release list gives one block back. -/
theorem exec_freeHandle (b : Nat) (env : Env) (st : State) (hlive : (st.memory.blocks b).isSome) :
    execAll m lib [.run (.call .freeHGlobal [.var .handle])]
        ((.handle, .handle (some ⟨b, 0⟩)) :: env) st =
      some ((.handle, .handle (some ⟨b, 0⟩)) :: env,
        { st with memory := st.memory.freeAll [b] }) := by
  let inner : Env := (.handle, .handle (some ⟨b, 0⟩)) :: env
  have hhandle : evalAll m lib inner [.var .handle] st = some ([.handle (some ⟨b, 0⟩)], st) :=
    evalAll_cons m lib _ _ inner st st st _ _ (bound_local m lib (by simp) rfl st) rfl
  have hcall : m.call? .freeHGlobal [.handle (some ⟨b, 0⟩)] st =
      some (.null, { st with memory := st.memory.freeAll [b] }) := by
    simp [Machine.call?, Memory.free?_eq _ _ hlive]
  have hfree := exec_run_call m lib .freeHGlobal _ .null inner st _
    (eval_call m lib _ _ inner st st _ _ hhandle hcall) (by simp) (by simp) (by simp)
  exact execAll_cons m lib _ [] _ _ st _ hfree

/-- The loop over a release list of blocks that are there and differ from each other. -/
theorem exec_forEachFree (released : List (Option Address)) (blocks : List Nat)
    (hdistinct : blocks.Nodup) (st : State) (hreleased : st.released = released)
    (hlive : ∀ b ∈ blocks, (st.memory.blocks b).isSome) (env : Env) :
    (blocks.map fun b => some (Address.mk b 0)).foldlM (fun (before : Env × State) handle => do
      let (inner, next) ← execAll m lib [.run (.call .freeHGlobal [.var .handle])]
        ((.handle, .handle handle) :: before.1) before.2
      if next.released = released then some (Env.leave before.1 inner, next) else none) (env, st) =
      some (env, { st with memory := st.memory.freeAll blocks }) := by
  induction blocks generalizing st with
  | nil =>
    rw [Memory.freeAll_nil]
    rfl
  | cons b rest ih =>
    obtain ⟨hnotin, hrest⟩ := List.nodup_cons.mp hdistinct
    have hround := exec_freeHandle m lib b env st (hlive b (by simp))
    have hleave : Env.leave env ((.handle, .handle (some ⟨b, 0⟩)) :: env) = env :=
      Env.leave_append env [_]
    -- the blocks that are left are not the one given back
    have hstill : ∀ b' ∈ rest, ((st.memory.freeAll [b]).blocks b').isSome := by
      intro b' hb'
      have hne : b' ≠ b := fun heq => hnotin (heq ▸ hb')
      simpa [Memory.freeAll, hne] using hlive b' (by simp [hb'])
    have hlater := ih hrest { st with memory := st.memory.freeAll [b] } hreleased hstill
    rw [List.map_cons, List.foldlM_cons]
    simp only [hround, Option.bind_eq_bind, Option.bind_some, if_pos hreleased, hleave]
    refine hlater.trans ?_
    simp only [Memory.freeAll_cons]

/-- The start of a release. -/
theorem exec_freeReleased (blocks : List Nat) (hdistinct : blocks.Nodup) (st : State)
    (hreleased : st.released = blocks.map fun b => some ⟨b, 0⟩)
    (hlive : ∀ b ∈ blocks, (st.memory.blocks b).isSome) (env : Env) :
    execAll m lib freeReleased env st =
      some (env, { st with released := [], memory := st.memory.freeAll blocks }) := by
  have hloop : (Stmt.forEach .intPtr .handle (.var .toRelease)
      [.run (.call .freeHGlobal [.var .handle])]).exec m lib env st =
      some (env, { st with memory := st.memory.freeAll blocks }) := by
    have hrounds := exec_forEachFree m lib st.released blocks hdistinct st rfl hlive env
    rw [← hreleased] at hrounds
    exact hrounds
  rw [freeReleased, execAll_cons m lib _ _ env env st _ hloop]
  exact execAll_cons m lib _ [] env env _ _ rfl

end

section
variable (m : Machine) (t : Target) (lib : Library)

/-- The release of a nested struct, for which the release list is empty. It changes the transfer
struct only, where that has handles. -/
def Releases (s : StructType) : Prop :=
  ∀ mem lo hi v (st : State), st.released = [] → Represents m t mem lo hi (.struct s) v st.wrapper →
    ∃ w, Resets (.struct s) st.wrapper w ∧
      lib.call s.name.dotted .releaseNative st = some { st with wrapper := w }

variable {m t lib}

theorem exec_run_release (path : String) (place : Expr) (w w' : Value) (env : Env)
    (around : Value → Value) (hplace : PlaceAt m lib env place .transfer around) (st : State)
    (hwrapper : st.wrapper = around w)
    (hcall : lib.call path .releaseNative { st with self := .null, wrapper := w } =
      some { st with self := .null, wrapper := w' }) :
    (Stmt.run (.call (.releaseNative (.named path)) [.byRef place, .var .toRelease])).exec m lib env
      st = some (env, { st with wrapper := around w' }) := by
  have hassign := hplace.assign st w w' hwrapper
  simp only [Stmt.exec, Expr.run, hplace.eval st w hwrapper, Option.bind_eq_bind, Option.bind_some,
    hcall]
  exact hassign

/-- A handle set back to null. -/
theorem exec_resetHandle (place : Expr) (env : Env) (around : Value → Value)
    (hplace : PlaceAt m lib env place .transfer around) (w : Value) (st : State)
    (hwrapper : st.wrapper = around w) :
    execAll m lib [resetHandle place] env st =
      some (env, { st with wrapper := around (.handle none) }) :=
  execAll_cons m lib _ [] env env st _ (exec_assign m lib place (.constant .zeroHandle) _ env env st st
    _ rfl (hplace.assign st w (.handle none) hwrapper))

/-- The release of one element. -/
theorem exec_releaseElement (e : Element) (releases : ∀ s, e = .struct s → Releases m t lib s)
    (place : Expr) (env : Env) (around : Value → Value)
    (hplace : PlaceAt m lib env place .transfer around) (mem : Memory) (lo hi : Nat) (v w : Value)
    (st : State) (hreleased : st.released = []) (hwrapper : st.wrapper = around w)
    (rep : Represents m t mem lo hi e.shape v w) :
    ∃ w', Resets e.shape w w' ∧ execAll m lib (releaseElement place e) env st =
      some (env, { st with wrapper := around w' }) := by
  cases e with
  | primitive kind => exact ⟨w, .primitive kind w, by rw [← hwrapper]; rfl⟩
  | enum en => exact ⟨w, .enum en w, by rw [← hwrapper]; rfl⟩
  | string kind =>
    exact ⟨.handle none, rep.resets (.string kind rfl),
      exec_resetHandle place env around hplace w st hwrapper⟩
  | struct s =>
    obtain ⟨w', hresets, hcall⟩ := releases s rfl mem lo hi v
      { st with self := .null, wrapper := w } hreleased rep
    have hrun := exec_run_release s.name.dotted place w w' env around hplace st hwrapper hcall
    exact ⟨w', hresets, execAll_cons m lib _ [] env env st _ hrun⟩

/-- Statements for an array that is there. -/
theorem exec_whenPresent (place : Expr) (body : List Stmt) (env : Env) (around : Value → Value)
    (hplace : PlaceAt m lib env place .transfer around) (items : List Value) (st st' : State)
    (hwrapper : st.wrapper = around (.array 1 items))
    (hbody : execAll m lib body env st = some (env, st')) :
    execAll m lib (whenPresent place body) env st = some (env, st') := by
  have hthere : (Expr.binary .unequal place (.constant .null)).eval m lib env st =
      some (.bool true, st) := by
    simp [Expr.eval, hplace.eval st _ hwrapper, Machine.constant, Machine.operate?, Value.same?]
  exact execAll_cons m lib _ [] env env st st'
    (exec_when_true m lib _ body env [] st st' hthere hbody)

theorem mapM_cleared? (items : List Value) (h : ∀ x ∈ items, ∃ a, x = .handle a) :
    items.mapM Value.cleared? = some (List.replicate items.length (.handle none)) := by
  induction items with
  | nil => rfl
  | cons x rest ih =>
    obtain ⟨⟨a, rfl⟩, hrest⟩ := List.forall_mem_cons.mp h
    rw [List.mapM_cons, ih hrest]
    rfl

/-- Clearing an array of handles. -/
theorem exec_clearHandles (place : Expr) (env : Env) (around : Value → Value)
    (hplace : PlaceAt m lib env place .transfer around) (items : List Value)
    (hitems : ∀ x ∈ items, ∃ a, x = .handle a) (hlength : items.length ≤ 2147483647) (st : State)
    (hwrapper : st.wrapper = around (.array 1 items)) :
    execAll m lib [.run (.call .arrayClear [place, .nat 0, .arrayLength place])] env st =
      some (env, { st with
        wrapper := around (.array 1 (List.replicate items.length (.handle none))) }) := by
  have hget := hplace.eval st _ hwrapper
  have hcount : (Expr.arrayLength place).eval m lib env st = some (.int items.length, st) := by
    have hfits : InInt32 (items.length : Int) := by
      unfold InInt32
      omega
    simp [Expr.eval, hget, hfits]
  have hzero := bound_nat m lib env 0 (by omega) st
  have hclear : (Stmt.run (.call .arrayClear [place, .nat 0, .arrayLength place])).exec m lib env st =
      some (env, st.set .transfer
        (around (.array 1 (List.replicate items.length (.handle none))))) := by
    have hassign := hplace.assign st _ (.array 1 (List.replicate items.length (.handle none))) hwrapper
    have hstart : Value.index? (.int 0) = some 0 := rfl
    simp only [Stmt.exec, Expr.run, hget, Option.bind_eq_bind, Option.bind_some, hzero, hcount,
      Int.natCast_zero, hstart, Value.index?_natCast, Nat.zero_add, Nat.le_refl, if_true,
      List.drop_zero, List.take_length, mapM_cleared? items hitems, List.take_zero, List.nil_append,
      List.drop_length, List.append_nil, hassign]
  exact execAll_cons m lib _ [] env env st _ hclear

/-- The transfer struct with the first `k` structs of an array released, and those after them as they
were. -/
def ReleasedUpTo (inner : StructType) (around : Value → Value) (natives : List Value) (st₀ : State)
    (k : Nat) (st : State) : Prop :=
  ∃ done : List Value, done.length = k ∧
    (∀ (j : Nat) x y, natives[j]? = some x → done[j]? = some y → Resets (.struct inner) x y) ∧
    st = { st₀ with wrapper := around (.array 1 (done ++ natives.drop k)) }

/-- The next struct is released in its place. -/
theorem ReleasedUpTo.exec_releaseStruct {inner : StructType} {around : Value → Value}
    {natives : List Value} {st₀ st : State} {k : Nat}
    (released : ReleasedUpTo inner around natives st₀ k st) (releases : Releases m t lib inner)
    {place index : Expr} {env : Env} (hplace : PlaceAt m lib env place .transfer around)
    (hindex : Bound m lib env index (.int k)) {mem : Memory} {lo hi : Nat} {v item : Value}
    (hitem : natives[k]? = some item) (rep : Represents m t mem lo hi (.struct inner) v item)
    (hreleased : st₀.released = []) :
    ∃ st', execAll m lib [releaseStruct inner (.index place [index])] env st = some (env, st') ∧
      ReleasedUpTo inner around natives st₀ (k + 1) st' := by
  obtain ⟨done, rfl, hresets, rfl⟩ := released
  have hspot := placeAt_index m lib hplace done (natives.drop (done.length + 1)) hindex
  have hsplit : natives.drop done.length = item :: natives.drop (done.length + 1) := by
    obtain ⟨hlt, hget⟩ := List.getElem?_eq_some_iff.mp hitem
    rw [← hget, ← List.drop_eq_getElem_cons hlt]
  obtain ⟨w', hreset, hexec⟩ := exec_releaseElement (.struct inner)
    (fun _ h => by cases h; exact releases) (.index place [index]) env _ hspot mem lo hi v item
    { st₀ with wrapper := around (.array 1 (done ++ natives.drop done.length)) } hreleased
    (by rw [hsplit]) rep
  refine ⟨_, hexec, done ++ [w'], by simp, ?_, by simp⟩
  intro j x y hx hy
  rcases getElem?_snoc_cases hy with hy | ⟨rfl, rfl⟩
  · exact hresets j x y hx hy
  · cases hitem.symm.trans hx
    exact hreset

/-- The structs of an inline array, one after the other. -/
theorem exec_releaseStructs (inner : StructType) (releases : Releases m t lib inner) (place : Expr)
    (d : Nat) (valid : ValidDims [d]) (depth : Nat) (around : Value → Value)
    (hplace : ∀ env, PlaceAt m lib env place .transfer around) (mem : Memory) (lo hi : Nat)
    (f : List Nat → Value) (natives : List Value) (hlength : natives.length = d)
    (hitems : ∀ idx, InBounds [d] idx → ∃ item, natives[flat [d] idx]? = some item ∧
      Represents m t mem lo hi (.struct inner) (f idx) item)
    (st : State) (hreleased : st.released = []) (hwrapper : st.wrapper = around (.array 1 natives)) :
    ∃ items, items.length = d ∧
      (∀ (k : Nat) x y, natives[k]? = some x → items[k]? = some y → Resets (.struct inner) x y) ∧
      execAll m lib (loopNest depth [d] none fun indices =>
          [releaseStruct inner (.index place indices)]) [] st =
        some ([], { st with wrapper := around (.array 1 items) }) := by
  have hbody : ∀ idx, InBounds [d] idx → ∀ env' counters,
      Counting (depth + [d].length) env' counters idx → Env.SameLocals [] env' →
      ∀ s, ReleasedUpTo inner around natives st (flat [d] idx) s → ∃ pre s',
        execAll m lib [releaseStruct inner (.index place counters)] env' s = some (pre ++ env', s') ∧
          ReleasedUpTo inner around natives st (flat [d] idx + 1) s' := by
    intro idx hidx env' counters hcounters _ s released
    obtain ⟨item, hitem, hrep⟩ := hitems idx hidx
    obtain ⟨i, rest, rfl, _, hrest⟩ := hidx.cases_cons
    obtain rfl := hrest.eq_nil
    have hposition : flat [d] [i] = i := by simp [flat]
    rw [hposition] at hitem released ⊢
    obtain ⟨e, rfl, hindex⟩ : ∃ e, counters = [e] ∧ Bound m lib env' e (.int i) := by
      cases hcounters.bounds m lib with
      | cons hhead htail =>
        cases htail
        exact ⟨_, rfl, hhead⟩
    obtain ⟨s', hexec, hafter⟩ := released.exec_releaseStruct releases (hplace env') hindex hitem hrep
      hreleased
    exact ⟨[], s', hexec, hafter⟩
  obtain ⟨s', hexec, done, hdone, hresets, rfl⟩ := exec_loopNest m lib
    (ReleasedUpTo inner around natives st) _ [d] valid depth [] st hbody
    ⟨[], rfl, by simp, by rw [List.drop_zero, List.nil_append, ← hwrapper]⟩
  rw [List.prod_singleton] at hdone hexec
  rw [List.drop_of_length_le (by omega), List.append_nil] at hexec
  exact ⟨done, hdone, hresets, hexec⟩

/-- The strings of an inline array, all at once. -/
theorem exec_releaseStrings (kind : StringKind) (place : Expr) (dims : List Nat)
    (valid : ValidDims dims) (around : Value → Value) (hplace : PlaceAt m lib [] place .transfer around)
    (mem : Memory) (lo hi : Nat) (f : List Nat → Value) (natives : List Value)
    (hlength : natives.length = dims.prod)
    (hitems : ∀ idx, InBounds dims idx → ∃ item, natives[flat dims idx]? = some item ∧
      Represents m t mem lo hi (.string kind) (f idx) item)
    (st : State) (hwrapper : st.wrapper = around (.array 1 natives)) :
    ∃ items, items.length = dims.prod ∧
      (∀ (k : Nat) x y, natives[k]? = some x → items[k]? = some y → Resets (.string kind) x y) ∧
      execAll m lib [.run (.call .arrayClear [place, .nat 0, .arrayLength place])] [] st =
        some ([], { st with wrapper := around (.array 1 items) }) := by
  have hhandles : ∀ x ∈ natives, ∃ a, x = .handle a := by
    intro x hx
    obtain ⟨k, hk, hget⟩ := List.getElem_of_mem hx
    obtain ⟨idx, hidx, rfl⟩ := exists_flat_eq dims k (hlength ▸ hk)
    obtain ⟨item, hitem, hrep⟩ := hitems idx hidx
    rw [List.getElem?_eq_getElem hk, hget] at hitem
    cases hitem
    cases hrep with
    | text _ _ _ b => exact ⟨_, rfl⟩
  have hcount := valid.count_lt
  refine ⟨List.replicate natives.length (.handle none), by simp [hlength], ?_,
    exec_clearHandles place [] around hplace natives hhandles (by omega) st hwrapper⟩
  intro k x y hx hy
  obtain ⟨a, rfl⟩ := hhandles x (List.mem_of_getElem? hx)
  rw [List.eq_of_mem_replicate (List.mem_of_getElem? hy)]
  exact .string kind a

/-- The handles of an array, inside its transfer struct or behind a handle. -/
theorem exec_releaseArray (e : Element) (releases : ∀ s, e = .struct s → Releases m t lib s)
    (place : Expr) (dims : List Nat) (valid : ValidDims dims) (depth : Nat) (around : Value → Value)
    (hplace : ∀ env, PlaceAt m lib env place .transfer around) (mem : Memory) (lo hi : Nat)
    (v w : Value) (st : State) (hreleased : st.released = []) (hwrapper : st.wrapper = around w)
    (rep : Represents m t mem lo hi (.array e.shape dims) v w) :
    ∃ w', Resets (.array e.shape dims) w w' ∧
      execAll m lib (releaseArray depth place e (e.transfer dims)) [] st =
        some ([], { st with wrapper := around w' }) := by
  cases htransfer : e.transfer dims with
  | outOfLine length =>
    exact ⟨_, rep.resets (.outOfLine e dims length htransfer rfl),
      exec_resetHandle place [] around (hplace []) w st hwrapper⟩
  | inline length =>
    obtain ⟨g, natives, rfl, rfl, hlength, hitems⟩ := rep.inline_items htransfer
    obtain ⟨rfl, hsingle⟩ := Element.transfer_eq_inline htransfer
    cases e with
    | primitive kind =>
      exact ⟨_, .inline_refl _ htransfer hlength (.primitive kind), by rw [← hwrapper]; rfl⟩
    | enum en => exact ⟨_, .inline_refl _ htransfer hlength (.enum en), by rw [← hwrapper]; rfl⟩
    | string kind =>
      obtain ⟨items, hcount, hresets, hclear⟩ := exec_releaseStrings kind place dims valid around
        (hplace []) mem lo hi g natives hlength hitems st hwrapper
      exact ⟨_, .inline (.string kind) dims _ natives items htransfer hlength hcount hresets,
        exec_whenPresent place _ [] around (hplace []) natives st _ hwrapper hclear⟩
    | struct inner =>
      obtain ⟨d, rfl⟩ := valid.eq_singleton (hsingle inner rfl)
      rw [List.prod_singleton] at hlength htransfer ⊢
      obtain ⟨items, hcount, hresets, hloop⟩ := exec_releaseStructs inner (releases inner rfl) place d
        valid depth around hplace mem lo hi g natives hlength hitems st hreleased hwrapper
      exact ⟨_, .inline (.struct inner) [d] d natives items htransfer hlength hcount hresets,
        exec_whenPresent place _ [] around (hplace []) natives st _ hwrapper hloop⟩

/-- The handles of one field are reset. -/
theorem exec_releaseNative (f : FieldView) (depth : Nat)
    (htransferable : f.shape.Transferable t.layout)
    (releases : ∀ s ∈ f.shape.structs, Releases m t lib s) (q : String) (ws : String → Value)
    (mem : Memory) (lo hi : Nat) (v : Value) (st : State) (hreleased : st.released = [])
    (rep : Represents m t mem lo hi f.shape v (ws f.site.field))
    (hwrapper : st.wrapper = .record q ws) :
    ∃ w, Resets f.shape (ws f.site.field) w ∧ execAll m lib (releaseNative depth f).stmts [] st =
      some ([], { st with wrapper := .record q (Function.update ws f.site.field w) }) := by
  let around : Value → Value := fun x => .record q (Function.update ws f.site.field x)
  have hplace : ∀ env, PlaceAt m lib env f.native .transfer around :=
    fun env => placeAt_field m lib env .transfer f.site.field q ws
  have hwrapper' : st.wrapper = around (ws f.site.field) := by
    rw [hwrapper]
    simp only [around, Function.update_eq_self]
  rcases htransferable.cases with ⟨e, hshape⟩ | ⟨e, dims, hshape, valid⟩ | ⟨e, maxBound, hshape, _⟩
  · rw [Target.release_element depth f e hshape]
    rw [hshape] at rep releases ⊢
    exact exec_releaseElement e (fun s h => releases s (mem_structs_element h)) f.native [] around
      (hplace []) mem lo hi v _ st hreleased hwrapper' rep
  · rw [Target.release_array depth f e dims hshape valid]
    rw [hshape] at rep releases ⊢
    exact exec_releaseArray e (fun s h => releases s (mem_structs_element h)) f.native dims valid depth
      around hplace mem lo hi v _ st hreleased hwrapper' rep
  · rw [Target.release_sequence depth f e maxBound hshape]
    rw [hshape] at rep ⊢
    exact ⟨_, rep.resets (.sequence e.shape maxBound rfl),
      exec_resetHandle f.native [] around (hplace []) _ st hwrapper'⟩

/-- The handles of fields in order, and of no other. -/
theorem exec_fieldsRelease (fields : List FieldView)
    (hfields : ∀ f ∈ fields, f.shape.Transferable t.layout ∧
      ∀ s ∈ f.shape.structs, Releases m t lib s)
    (hdistinct : (fields.map (·.site.field)).Nodup) (q : String) (vals ws : String → Value)
    (mem : Memory) (lo hi : Nat) (st : State) (hreleased : st.released = [])
    (reps : ∀ f ∈ fields, Represents m t mem lo hi f.shape (vals f.site.field) (ws f.site.field))
    (hwrapper : st.wrapper = .record q ws) :
    ∃ after : String → Value,
      (∀ f ∈ fields, Resets f.shape (ws f.site.field) (after f.site.field)) ∧
      (∀ name, name ∉ fields.map (·.site.field) → after name = ws name) ∧
      execAll m lib (bodyOf fields InteropGen.releaseNative) [] st =
        some ([], { st with wrapper := .record q after }) := by
  induction fields generalizing ws st with
  | nil =>
    refine ⟨ws, by simp, fun _ _ => rfl, ?_⟩
    rw [← hwrapper]
    rfl
  | cons f rest ih =>
    obtain ⟨hf, hrest⟩ := List.forall_mem_cons.mp hfields
    obtain ⟨hrep, hrepsRest⟩ := List.forall_mem_cons.mp reps
    rw [List.map_cons, List.nodup_cons] at hdistinct
    obtain ⟨x, hreset, hexec⟩ := exec_releaseNative f 0 hf.1 hf.2 q ws mem lo hi _ st hreleased hrep
      hwrapper
    have hother : ∀ g ∈ rest,
        Function.update ws f.site.field x g.site.field = ws g.site.field := by
      intro g hg
      refine Function.update_of_ne ?_ ..
      exact fun heq => hdistinct.1 (heq ▸ List.mem_map_of_mem hg)
    obtain ⟨after, hresets, hothers, hexecRest⟩ := ih hrest hdistinct.2
      (Function.update ws f.site.field x)
      { st with wrapper := .record q (Function.update ws f.site.field x) } hreleased
      (fun g hg => by rw [hother g hg]; exact hrepsRest g hg) rfl
    refine ⟨after, ?_, ?_, ?_⟩
    · refine List.forall_mem_cons.mpr ⟨?_, fun g hg => hother g hg ▸ hresets g hg⟩
      rw [hothers _ hdistinct.1, Function.update_self]
      exact hreset
    · intro name hname
      rw [List.map_cons, List.mem_cons, not_or] at hname
      rw [hothers name hname.2, Function.update_of_ne hname.1]
    · rw [bodyOf, List.flatMap_cons, execAll_append m lib _ _ [] [] st _ hexec]
      exact hexecRest

/-- The release of a compiled struct that was converted, with the blocks that the list holds. -/
theorem call_releaseNative (wireCodec : Bool) (depth : Nat) (s : StructType)
    (compiled : Compiled m t wireCodec s)
    (hnested : ∀ f ∈ s.fields, ∀ inner ∈ f.type.shape.structs,
      Releases m t (m.library depth) inner)
    (mem : Memory) (lo hi : Nat) (v : Value) (st : State)
    (rep : Represents m t mem lo hi (.struct s) v st.wrapper) (blocks : List Nat)
    (hdistinct : blocks.Nodup) (hreleased : st.released = blocks.map fun b => some ⟨b, 0⟩)
    (hlive : ∀ b ∈ blocks, (st.memory.blocks b).isSome) :
    ∃ w, Resets (.struct s) st.wrapper w ∧
      (m.library (depth + 1)).call s.name.dotted .releaseNative st =
        some { st with wrapper := w, released := [], memory := st.memory.freeAll blocks } := by
  obtain ⟨c, transfers, declares⟩ := compiled.hosts.declares
  have hfree := exec_freeReleased m (m.library depth) blocks hdistinct st hreleased hlive []
  generalize hw : st.wrapper = native at rep
  cases rep with
  | struct _ vals ws hreps =>
  obtain ⟨after, hresets, hothers, hexec⟩ := exec_fieldsRelease (Target.views s)
    (forall_mem_views fun f hf => ⟨declares.transferable f hf, hnested f hf⟩)
    (by rw [views_names]; exact compiled.hosts.distinct) _ vals ws mem lo hi
    { st with released := [], memory := st.memory.freeAll blocks } rfl (forall_mem_views hreps) hw
  rw [views_names] at hothers
  refine ⟨.record (s.name.dotted ++ t.transferSuffix) after, ?_,
    library_call declares depth .releaseNative st _ ?_⟩
  · exact .struct s _ ws after (fun f hf => hresets _ (List.mem_map_of_mem hf)) hothers
  rw [ValueClass.body, declares.bodies.releaseNative, execAll_append m _ _ _ [] [] st _ hfree]
  exact hexec

/-- The release of a compiled struct that is nested in another. -/
theorem releases (wireCodec : Bool) (depth : Nat) (s : StructType) (hdepth : s.nesting ≤ depth)
    (compiled : Compiled m t wireCodec s) : Releases m t (m.library depth) s := by
  induction depth generalizing s with
  | zero =>
    rw [nesting_eq] at hdepth
    omega
  | succ depth ih =>
    intro mem lo hi v st hreleased rep
    obtain ⟨w, hresets, hcall⟩ := call_releaseNative wireCodec depth s compiled (by
      intro f hf inner hinner
      have hlt := nesting_lt s inner f hf hinner
      exact ih inner (by omega) (compiled.field f hf hinner)) mem lo hi v st rep [] .nil hreleased
      (by simp)
    refine ⟨w, hresets, ?_⟩
    rw [hcall, Memory.freeAll_nil, ← hreleased]

end

end InteropGen

import InteropGen.Generator.Declaration

/-!
# Drafts that finish

A draft either finishes or is cut short by an error. The lemmas say when a draft made of others
finishes and which statements it then consists of, so that later modules never open `Draft.bind`.

* `Draft.finishes_each`, `Draft.stmts_each` — item after item, the statements are concatenated;
* `methodBody_ok_iff` — a method body exists exactly if every field finishes, and it is the
  concatenation of what the fields write.
-/

set_option autoImplicit false

namespace InteropGen

open CSharp

theorem except_bind_ok_iff {ε α β : Type} (step : Except ε α) (next : α → Except ε β) (b : β) :
    (step >>= next) = .ok b ↔ ∃ a, step = .ok a ∧ next a = .ok b := by
  cases step with
  | error e => simp [bind, Except.bind]
  | ok a => simp [bind, Except.bind]

theorem except_mapM_ok_iff {ε α β : Type} (f : α → Except ε β) (items : List α) :
    (∃ results, items.mapM f = .ok results) ↔ ∀ item ∈ items, ∃ b, f item = .ok b := by
  induction items with
  | nil => simp [pure, Except.pure]
  | cons item rest ih =>
    simp only [List.mapM_cons, except_bind_ok_iff, pure, Except.pure, List.forall_mem_cons]
    constructor
    · rintro ⟨_, b, hb, results, hresults, _⟩
      exact ⟨⟨b, hb⟩, ih.mp ⟨results, hresults⟩⟩
    · rintro ⟨⟨b, hb⟩, hrest⟩
      obtain ⟨results, hresults⟩ := ih.mpr hrest
      exact ⟨b :: results, b, hb, results, hresults, rfl⟩

theorem except_mapM_congr {ε α β : Type} {f g : α → Except ε β} {items : List α}
    (h : ∀ item ∈ items, f item = g item) : items.mapM f = items.mapM g := by
  induction items with
  | nil => rfl
  | cons item rest ih =>
    obtain ⟨hitem, hrest⟩ := List.forall_mem_cons.mp h
    rw [List.mapM_cons, List.mapM_cons, hitem, ih hrest]

/-- Among the results is that of each item. -/
theorem except_mapM_mem {ε α β : Type} (f : α → Except ε β) (items : List α) (results : List β)
    (h : items.mapM f = .ok results) (item : α) (hitem : item ∈ items) :
    ∃ b ∈ results, f item = .ok b := by
  induction items generalizing results with
  | nil => cases hitem
  | cons first rest ih =>
    simp only [List.mapM_cons, except_bind_ok_iff, pure, Except.pure] at h
    obtain ⟨b, hb, others, hothers, heq⟩ := h
    cases heq
    rcases List.mem_cons.mp hitem with rfl | hrest
    · exact ⟨b, List.mem_cons_self .., hb⟩
    · obtain ⟨b', hmem, hb'⟩ := ih others hothers hrest
      exact ⟨b', List.mem_cons_of_mem _ hmem, hb'⟩

/-- Every result is that of an item. -/
theorem except_mapM_of_mem {ε α β : Type} (f : α → Except ε β) (items : List α) (results : List β)
    (h : items.mapM f = .ok results) (b : β) (hb : b ∈ results) :
    ∃ item ∈ items, f item = .ok b := by
  induction items generalizing results with
  | nil =>
    cases h
    cases hb
  | cons first rest ih =>
    simp only [List.mapM_cons, except_bind_ok_iff, pure, Except.pure] at h
    obtain ⟨b', hb', others, hothers, heq⟩ := h
    cases heq
    rcases List.mem_cons.mp hb with rfl | hrest
    · exact ⟨first, List.mem_cons_self .., hb'⟩
    · obtain ⟨item, hitem, hresult⟩ := ih others hothers hrest
      exact ⟨item, List.mem_cons_of_mem _ hitem, hresult⟩

/-- What is known of every single result is known of the results in order. -/
theorem except_mapM_map {ε α β γ : Type} (f : α → Except ε β) (g : β → γ) (k : α → γ)
    (h : ∀ item b, f item = .ok b → g b = k item) (items : List α) (results : List β)
    (hresults : items.mapM f = .ok results) : results.map g = items.map k := by
  induction items generalizing results with
  | nil =>
    cases hresults
    rfl
  | cons item rest ih =>
    simp only [List.mapM_cons, except_bind_ok_iff, pure, Except.pure] at hresults
    obtain ⟨b, hb, others, hothers, heq⟩ := hresults
    cases heq
    rw [List.map_cons, List.map_cons, h item b hb, ih others hothers]

/-- The result for an item is found by a key that no other item has. -/
theorem except_mapM_find {ε α β κ : Type} [DecidableEq κ] (f : α → Except ε β) (g : β → κ)
    (k : α → κ) (h : ∀ item b, f item = .ok b → g b = k item) (items : List α) (results : List β)
    (hresults : items.mapM f = .ok results) (hdistinct : (items.map k).Nodup) (item : α)
    (hitem : item ∈ items) :
    ∃ b, f item = .ok b ∧ results.find? (fun b => g b = k item) = some b := by
  induction items generalizing results with
  | nil => cases hitem
  | cons first rest ih =>
    simp only [List.mapM_cons, except_bind_ok_iff, pure, Except.pure] at hresults
    obtain ⟨b, hb, others, hothers, heq⟩ := hresults
    cases heq
    rw [List.map_cons, List.nodup_cons] at hdistinct
    rcases List.mem_cons.mp hitem with rfl | hrest
    · refine ⟨b, hb, ?_⟩
      rw [List.find?_cons_of_pos (by simp [h item b hb])]
    · have hne : k first ≠ k item := fun heq => hdistinct.1 (heq ▸ List.mem_map_of_mem hrest)
      obtain ⟨b', hb', hfind⟩ := ih others hothers hdistinct.2 hrest
      refine ⟨b', hb', ?_⟩
      rw [List.find?_cons_of_neg (by simpa [h first b hb] using hne)]
      exact hfind

namespace Draft

variable {α β : Type}

/-- The draft was not cut short. -/
def Finishes (d : Draft α) : Prop :=
  ∃ a, d.outcome = .ok a

theorem outcome_bind (d : Draft α) (next : α → Draft β) :
    (d >>= next).outcome = d.outcome >>= fun a => (next a).outcome := by
  show (d.bind next).outcome = _
  unfold Draft.bind
  cases d.outcome <;> rfl

theorem outcome_bind_ok_iff (d : Draft α) (next : α → Draft β) (b : β) :
    (d >>= next).outcome = .ok b ↔ ∃ a, d.outcome = .ok a ∧ (next a).outcome = .ok b := by
  show (d.bind next).outcome = .ok b ↔ _
  unfold Draft.bind
  cases d.outcome with
  | error e => simp
  | ok a => simp

theorem stmts_bind_of_ok (d : Draft α) (next : α → Draft β) (a : α) (h : d.outcome = .ok a) :
    (d >>= next).stmts = d.stmts ++ (next a).stmts := by
  show (d.bind next).stmts = _
  unfold Draft.bind
  rw [h]

@[simp] theorem finishes_pure (a : α) : (pure a : Draft α).Finishes := ⟨a, rfl⟩

@[simp] theorem finishes_write (stmts : List Stmt) : (write stmts).Finishes := ⟨(), rfl⟩

@[simp] theorem not_finishes_fail (e : GenError) : ¬ (fail e : Draft α).Finishes := by
  rintro ⟨a, h⟩
  cases h

@[simp] theorem outcome_pure (a : α) : (pure a : Draft α).outcome = .ok a := rfl

@[simp] theorem outcome_write (stmts : List Stmt) : (write stmts).outcome = .ok () := rfl

@[simp] theorem outcome_note (d : Diagnostic) : (note d).outcome = .ok () := rfl

@[simp] theorem outcome_lift (result : Except GenError α) : (lift result).outcome = result := rfl

@[simp] theorem stmts_pure (a : α) : (pure a : Draft α).stmts = [] := rfl

@[simp] theorem stmts_write (stmts : List Stmt) : (write stmts).stmts = stmts := rfl

@[simp] theorem stmts_note (d : Diagnostic) : (note d).stmts = [] := rfl

@[simp] theorem stmts_lift (result : Except GenError α) : (lift result).stmts = [] := rfl

theorem finishes_bind (d : Draft α) (next : α → Draft β) :
    (d >>= next).Finishes ↔ ∃ a, d.outcome = .ok a ∧ (next a).Finishes := by
  simp only [Finishes, outcome_bind_ok_iff]
  constructor
  · rintro ⟨b, a, ha, hb⟩
    exact ⟨a, ha, b, hb⟩
  · rintro ⟨a, ha, b, hb⟩
    exact ⟨b, a, ha, hb⟩

/-- After a draft that surely finishes with `a`, only what follows matters. -/
theorem finishes_bind_of_ok (d : Draft α) (next : α → Draft β) (a : α) (h : d.outcome = .ok a) :
    (d >>= next).Finishes ↔ (next a).Finishes := by
  simp [finishes_bind, h]

theorem finishes_each (items : List α) (draft : α → Draft Unit) :
    (each items draft).Finishes ↔ ∀ item ∈ items, (draft item).Finishes := by
  induction items with
  | nil =>
    have hdone : (each [] draft).Finishes := finishes_pure ()
    simp [hdone]
  | cons item rest ih =>
    show (draft item >>= fun _ => each rest draft).Finishes ↔ _
    rw [finishes_bind, List.forall_mem_cons, ← ih]
    constructor
    · rintro ⟨a, ha, hrest⟩
      exact ⟨⟨a, ha⟩, hrest⟩
    · rintro ⟨⟨a, ha⟩, hrest⟩
      exact ⟨a, ha, hrest⟩

theorem stmts_each (items : List α) (draft : α → Draft Unit) (h : (each items draft).Finishes) :
    (each items draft).stmts = items.flatMap fun item => (draft item).stmts := by
  induction items with
  | nil => rfl
  | cons item rest ih =>
    change (draft item >>= fun _ => each rest draft).Finishes at h
    obtain ⟨a, ha, hrest⟩ := (finishes_bind _ _).mp h
    calc (each (item :: rest) draft).stmts
        = (draft item >>= fun _ => each rest draft).stmts := rfl
      _ = (draft item).stmts ++ (each rest draft).stmts := stmts_bind_of_ok _ _ a ha
      _ = _ := by rw [ih hrest, List.flatMap_cons]

end Draft

/-- What the fields write, one after the other. -/
def bodyOf (fields : List FieldView) (draft : (depth : Nat) → FieldView → Draft Unit) : List Stmt :=
  fields.flatMap fun f => (draft 0 f).stmts

theorem methodBody_stmts (fields : List FieldView) (draft : Nat → FieldView → Draft Unit)
    (stmts : List Stmt) (notes : List Diagnostic)
    (h : methodBody fields draft = .ok (stmts, notes)) : stmts = bodyOf fields draft := by
  unfold methodBody Draft.complete at h
  cases houtcome : (Draft.each fields (draft 0)).outcome with
  | error e => simp [houtcome, Except.map] at h
  | ok a =>
    simp only [houtcome, Except.map, Except.ok.injEq, Prod.mk.injEq] at h
    rw [← h.1]
    exact Draft.stmts_each fields (draft 0) ⟨a, houtcome⟩

theorem methodBody_ok_iff (fields : List FieldView) (draft : Nat → FieldView → Draft Unit) :
    (∃ result, methodBody fields draft = .ok result) ↔ ∀ f ∈ fields, (draft 0 f).Finishes := by
  rw [← Draft.finishes_each fields (draft 0)]
  unfold methodBody Draft.complete Draft.Finishes
  cases (Draft.each fields (draft 0)).outcome with
  | error e => simp [Except.map]
  | ok a => simp [Except.map]

end InteropGen

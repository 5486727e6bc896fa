import InteropGen.CSharp.Stmt
import InteropGen.Diagnostic

/-!
# Drafts

A draft is code in the making: the statements written so far, the diagnostics raised so far, and
how the writing ended, with a value or with the error that cut it short. Statements written before
an error stay visible in the draft; whether they are used is up to the caller.
-/

set_option autoImplicit false

namespace InteropGen

/-- Statements and diagnostics, and the outcome of writing them. -/
structure Draft (α : Type) where
  stmts : List CSharp.Stmt
  notes : List Diagnostic
  outcome : Except GenError α

namespace Draft

variable {α β : Type}

/-- Writes nothing. -/
protected def pure (a : α) : Draft α :=
  ⟨[], [], .ok a⟩

/-- Goes on after a draft that did not fail. -/
protected def bind (d : Draft α) (next : α → Draft β) : Draft β :=
  match d.outcome with
  | .error e => ⟨d.stmts, d.notes, .error e⟩
  | .ok a =>
    let rest := next a
    ⟨d.stmts ++ rest.stmts, d.notes ++ rest.notes, rest.outcome⟩

instance : Monad Draft where
  pure := Draft.pure
  bind := Draft.bind

/-- Writes statements. -/
def write (stmts : List CSharp.Stmt) : Draft Unit :=
  ⟨stmts, [], .ok ()⟩

/-- Raises a diagnostic. -/
def note (d : Diagnostic) : Draft Unit :=
  ⟨[], [d], .ok ()⟩

/-- Fails. -/
def fail (e : GenError) : Draft α :=
  ⟨[], [], .error e⟩

/-- Takes over a result or an error. -/
def lift (result : Except GenError α) : Draft α :=
  ⟨[], [], result⟩

/-- The drafts of several items one after the other, up to the first that fails. -/
def each (items : List α) (draft : α → Draft Unit) : Draft Unit :=
  match items with
  | [] => Draft.pure ()
  | item :: rest => (draft item).bind fun _ => each rest draft

/-- The statements and diagnostics of a draft that did not fail. -/
def complete (d : Draft Unit) : Except GenError (List CSharp.Stmt × List Diagnostic) :=
  d.outcome.map fun _ => (d.stmts, d.notes)

end Draft

end InteropGen

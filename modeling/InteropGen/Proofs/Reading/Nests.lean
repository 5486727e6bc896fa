import InteropGen.Proofs.IndexTuples
import InteropGen.Proofs.OptionMap
import InteropGen.Proofs.Reading.Loops
import InteropGen.Scribe

/-!
# Loop nests read from their text

The lines of a loop nest, whoever writes them, and the code that is read from these lines.

* `inLoops_eq`, `bodyLines_loopNestFrom` — a scribe and a method body have the same lines;
* `reads_nestLines` — they are read as loops within each other, by induction on the dimensions;
* `runAll_nestCode` — such loops run their block for every index tuple in row-major order.
-/

set_option autoImplicit false

namespace InteropGen.Reading

open CSharp

/-! ## The lines of a nest -/

/-- The lines of a nest whose innermost block is given for its level and the counters. -/
def nestLines (stem : String) (inner : Nat → List Expr → List Line) (level depth : Nat)
    (outer : List Expr) : (dims : List Nat) → List Line
  | [] => inner level outer
  | d :: rest =>
    ⟨level, countUpHeader stem depth (.nat d)⟩ ::
      braced level (nestLines stem inner (level + 1) (depth + 1) (outer ++ [counter depth]) rest)

/-- What is written inside a nest stands between its lines, and the scribe is left as it was. -/
theorem inLoops_eq (body : List Expr → Writing) (inner : Nat → List Expr → List Line)
    (result : Except GenError Unit)
    (hbody : ∀ cs p, body cs p = ({ p with lines := p.lines ++ inner p.scribe.level cs }, result))
    (outer : List Expr) (dims : List Nat) (p : Page) :
    Page.inLoops none body outer dims p =
      ({ p with
          lines := p.lines ++ nestLines p.scribe.style.counterStem inner p.scribe.level
            p.scribe.loopDepth outer dims }, result) := by
  induction dims generalizing outer p with
  | nil => exact hbody outer p
  | cons d rest ih =>
    simp only [Page.inLoops, Page.inLoop, ih]
    simp [Page.statements, RowAllocation.atLevel, bodyLines, Page.pushCounter, Page.openWith,
      Page.openBlock, Page.line, Page.update, Page.close, Page.closeWith, Page.popCounter,
      Page.nextCounter, nestLines, braced]

/-- The same lines stand in the bodies of generated methods. -/
theorem bodyLines_loopNestFrom (stem : String) (body : List Expr → List Stmt)
    (level depth : Nat) (outer : List Expr) (dims : List Nat) :
    bodyLines stem level (loopNestFrom none body depth outer dims) =
      nestLines stem (fun level cs => bodyLines stem level (body cs)) level depth outer dims := by
  induction dims generalizing level depth outer with
  | nil => rfl
  | cons d rest ih =>
    simp [loopNestFrom, bodyLines, Stmt.lines, RowAllocation.atLevel, ih, nestLines]

/-! ## The nest as code -/

/-- The counters of a nest, the outermost first. -/
def nestCounters (depth : Nat) (dims : List Nat) : List Expr :=
  (List.range dims.length).map fun j => counter (depth + j)

/-- Their names. -/
def nestNames (stem : String) (depth : Nat) (dims : List Nat) : List (List Char) :=
  (List.range dims.length).map fun j => counterWord stem (depth + j)

/-- The loops around some statements. -/
def nestCode (stem : String) (inner : List Statement) (depth : Nat) : List Nat → List Statement
  | [] => inner
  | d :: rest => [.loop (counterWord stem depth) d (nestCode stem inner (depth + 1) rest)]

/-- The tokens are read as the statements, wherever they stand. -/
def Reads (ts : List Token) (code : List Statement) : Prop :=
  ∀ frames done, ts.foldlM State.step ⟨frames, done, []⟩ = some ⟨frames, done ++ code, []⟩

theorem nestCounters_cons (depth d : Nat) (rest : List Nat) :
    nestCounters depth (d :: rest) = counter depth :: nestCounters (depth + 1) rest := by
  simp [nestCounters, List.range_succ_eq_map, Nat.add_assoc, Nat.add_comm 1]

theorem nestNames_cons (stem : String) (depth d : Nat) (rest : List Nat) :
    nestNames stem depth (d :: rest) =
      counterWord stem depth :: nestNames stem (depth + 1) rest := by
  simp [nestNames, List.range_succ_eq_map, Nat.add_assoc, Nat.add_comm 1]

theorem reads_nestLines {stem : String} (h : isIdentifier stem = true)
    {inner : Nat → List Expr → List Line} {code : List Statement} {dims : List Nat}
    (hdims : ∀ d ∈ dims, d < 2 ^ 31) (level depth : Nat) (outer : List Expr)
    (hinner : Reads ((inner (level + dims.length) (outer ++ nestCounters depth dims)).flatMap
      fun line => tokens line.text) code) :
    Reads ((nestLines stem inner level depth outer dims).flatMap fun line => tokens line.text)
      (nestCode stem code depth dims) := by
  induction dims generalizing level depth outer with
  | nil => simpa [nestLines, nestCode, nestCounters] using hinner
  | cons d rest ih =>
    obtain ⟨hd, hrest⟩ := List.forall_mem_cons.mp hdims
    intro frames done
    have hread := ih hrest (level + 1) (depth + 1) (outer ++ [counter depth]) (by
      simpa [nestCounters_cons, Nat.add_assoc, Nat.add_comm 1] using hinner)
    have htokens : (nestLines stem inner level depth outer (d :: rest)).flatMap
        (fun line => tokens line.text) =
          (tokens (countUpHeader stem depth (.nat d)) ++ [.symbol '\x7b']) ++
            (nestLines stem inner (level + 1) (depth + 1) (outer ++ [counter depth]) rest).flatMap
              (fun line => tokens line.text) ++ [.symbol '\x7d'] := by
      have hopen : tokens "\x7b" = [.symbol '\x7b'] := rfl
      have hclose : tokens "\x7d" = [.symbol '\x7d'] := rfl
      simp [nestLines, braced, hopen, hclose]
    rw [htokens, List.foldlM_append, List.foldlM_append, foldlM_open frames done h depth hd,
      Option.bind_eq_bind, Option.bind_some, hread]
    rfl

/-! ## Running the nest -/

theorem runAll_singleton (env : Counters) (s : Statement) : runAll env [s] = s.run env := by
  cases hrun : s.run env <;> simp [runAll, hrun]

/-- The block of a nest is run for every index tuple, in row-major order. -/
theorem runAll_nestCode (stem : String) (code : List Statement) (dims : List Nat) (depth : Nat)
    (env : Counters) (events : Counters → List (Counters × List Token))
    (hfresh : ∀ i, depth ≤ i → counterWord stem i ∉ env.map (·.1))
    (hcode : ∀ idx ∈ rowMajor dims, runAll (env ++ (nestNames stem depth dims).zip idx) code =
      some (events (env ++ (nestNames stem depth dims).zip idx))) :
    runAll env (nestCode stem code depth dims) =
      some ((rowMajor dims).flatMap fun idx =>
        events (env ++ (nestNames stem depth dims).zip idx)) := by
  induction dims generalizing depth env with
  | nil => simpa [nestCode, nestNames, rowMajor] using hcode
  | cons d rest ih =>
    have hturn : ∀ n ∈ List.range d,
        runAll (env ++ [(counterWord stem depth, n)]) (nestCode stem code (depth + 1) rest) =
          some ((rowMajor rest).flatMap fun inner => events
            (env ++ (nestNames stem depth (d :: rest)).zip (n :: inner))) := by
      intro n hn
      have henv : ∀ inner, env ++ (nestNames stem depth (d :: rest)).zip (n :: inner) =
          env ++ [(counterWord stem depth, n)] ++ (nestNames stem (depth + 1) rest).zip inner := by
        simp [nestNames_cons]
      simp only [henv]
      refine ih (depth + 1) _ (fun i hi => ?_) fun inner hinner => ?_
      · have hbefore := hfresh i (by omega)
        have hself : counterWord stem i ≠ counterWord stem depth := fun heq =>
          absurd (counterWord_injective stem heq) (by omega)
        simp [hself]
        simpa using hbefore
      · rw [← henv]
        exact hcode (n :: inner) (List.mem_flatMap.mpr ⟨n, hn, List.mem_map_of_mem hinner⟩)
    rw [nestCode, runAll_singleton, Statement.run, if_neg (hfresh depth (Nat.le_refl _)),
      option_mapM_of_mem _ _ _ hturn, Option.map_some, ← List.flatMap_def]
    simp only [rowMajor, List.flatMap_assoc, List.flatMap_map]

end InteropGen.Reading

import Mathlib.Algebra.GroupWithZero.Nat
import Mathlib.Data.List.Nodup
import InteropGen.Generator.Basic
import InteropGen.Proofs.Reading.Nests
import InteropGen.Proofs.Reading.Sums

/-!
# Loops over an array and positions in it

The loops over the dimensions of an array and the flat index of their counters, both taken as text:
the loops visit the index tuples in row-major order, and the flat index is the number of the visit.

* `strides_exact` — the strides of accepted dimensions are the products of the dimensions behind;
* `evaluate?_flatIndex` — the printed flat index is the position of the element, and every product
  and partial sum on the way is an `int`;
* `visits_nestLines` — what the printed loops reach;
* `nest_visits` — both together, for loops around any statement;
* `loopNest_visits` — the same loops in the bodies of generated methods.
-/

set_option autoImplicit false

namespace InteropGen

open CSharp

/-! ## Order and strides -/

/-- The tuples stand in lexicographic order. -/
theorem rowMajor_sorted (dims : List Nat) : (rowMajor dims).Pairwise (· < ·) := by
  induction dims with
  | nil => simp [rowMajor]
  | cons d rest ih =>
    rw [rowMajor, List.pairwise_flatMap]
    refine ⟨fun i _ => ?_, ?_⟩
    · rw [List.pairwise_map]
      exact ih.imp fun h => List.cons_lt_cons_self.mpr h
    · refine List.pairwise_lt_range.imp ?_
      intro i j hlt a ha b hb
      obtain ⟨_, _, rfl⟩ := List.mem_map.mp ha
      obtain ⟨_, _, rfl⟩ := List.mem_map.mp hb
      exact List.Lex.rel hlt

/-- The dimensions within a row are positive too, and its size fits. -/
theorem strides_row {d : Nat} {rest : List Nat} (positive : ∀ x ∈ d :: rest, 0 < x)
    (hcount : (d :: rest).prod < 2 ^ 31) :
    (∀ x ∈ rest, 0 < x) ∧ rest.prod < 2 ^ 31 ∧ strides (d :: rest) = rest.prod :: strides rest := by
  obtain ⟨hd, hrest⟩ := List.forall_mem_cons.mp positive
  have hle : rest.prod ≤ (d :: rest).prod := by
    rw [List.prod_cons]
    exact Nat.le_mul_of_pos_left _ hd
  have hlimit : (2 : Nat) ^ 31 ≤ strideLimit := by decide
  exact ⟨hrest, by omega, strides_cons d rest hrest (by omega)⟩

/-- No stride stops at the limit: each is the whole product of the dimensions that follow. -/
theorem strides_exact {dims : List Nat} (positive : ∀ d ∈ dims, 0 < d)
    (hcount : dims.prod < 2 ^ 31) :
    strides dims = (List.range dims.length).map fun j => (dims.drop (j + 1)).prod := by
  induction dims with
  | nil => rfl
  | cons d rest ih =>
    obtain ⟨hrest, hrow, hstrides⟩ := strides_row positive hcount
    rw [hstrides, ih hrest hrow, List.length_cons, List.range_succ_eq_map]
    simp

namespace Reading

theorem value?_of_mem {env : Counters} (hnames : (env.map (·.1)).Nodup) {i : List Char} {v : Nat}
    (hi : isName i = true) (hmem : (i, v) ∈ env) : value? env i = some v := by
  have hfind : env.find? (·.1 = i) = some (i, v) := by
    induction env with
    | nil => cases hmem
    | cons first rest ih =>
      rw [List.map_cons, List.nodup_cons] at hnames
      rcases List.mem_cons.mp hmem with rfl | hmem
      · simp
      · have hne : first.1 ≠ i := fun heq =>
          hnames.1 (heq ▸ List.mem_map.mpr ⟨(i, v), hmem, rfl⟩)
        rw [List.find?_cons_of_neg (by simpa using hne), ih hnames.2 hmem]
  rw [value?, if_pos hi, hfind]
  rfl

theorem hasValue_name {env : Counters} {stem : String} (h : isIdentifier stem = true)
    {depth v : Nat} (hvalue : value? env (counterWord stem depth) = some v) :
    HasValue env ((counter depth).text stem) v := by
  intro outer level
  have htokens : tokens ((counter depth).text stem) = [.word (counterWord stem depth)] :=
    tokensFrom_only (isWordChar_counterWord h depth) (counterWord_ne_nil stem depth)
  rw [htokens]
  simp [Calculation.step, hvalue]

/-- A counter with its stride is a product in parentheses, unless the stride is one. -/
theorem hasValue_weighted {env : Counters} {stem : String} (h : isIdentifier stem = true)
    {depth stride v : Nat} (hvalue : value? env (counterWord stem depth) = some v)
    (hstride : stride < 2 ^ 31) (hproduct : v * stride < 2 ^ 31) :
    HasValue env ((weighted stride (counter depth)).text stem) (v * stride) := by
  unfold weighted
  split
  · rename_i hone
    rw [hone, Nat.mul_one]
    exact hasValue_name h hvalue
  · intro outer level
    have htext : ((Expr.paren (.binary .times (counter depth) (.nat stride))).text stem).toList =
        '(' :: (counterWord stem depth ++ ' ' :: '*' :: ' ' ::
          (Nat.toDigits 10 stride ++ [')'])) := by
      simp [counter, Expr.text, BinaryOp.text, counterWord]
    have hopen : ∀ chars, tokensFrom [] ('(' :: chars) = .symbol '(' :: tokensFrom [] chars :=
      fun _ => rfl
    have htimes : ∀ chars, tokensFrom [] (' ' :: '*' :: ' ' :: chars) =
        .symbol '*' :: tokensFrom [] chars := fun _ => rfl
    have htokens : tokens ((Expr.paren (.binary .times (counter depth) (.nat stride))).text stem) =
        [.symbol '(', .word (counterWord stem depth), .symbol '*', .word (Nat.toDigits 10 stride),
          .symbol ')'] := by
      rw [tokens, htext, hopen,
        tokensFrom_name (isWordChar_counterWord h depth) (counterWord_ne_nil stem depth)
          (by decide) (by decide),
        htimes, tokensFrom_name (isWordChar_digits stride) Nat.toDigits_ne_nil
          (by decide) (by decide)]
      rfl
    have hdigits : value? env (Nat.toDigits 10 stride) = some stride := by
      rw [value?, if_neg (by simp [isName_toDigits]), numeral?_toDigits hstride]
    rw [htokens]
    simp [Calculation.step, hvalue, hdigits, Level.total, multiplied, added, int?_of_lt hproduct]

/-! ## The position of an element -/

theorem sum_flat {dims idx : List Nat} (hidx : InBounds dims idx) (positive : ∀ d ∈ dims, 0 < d)
    (hcount : dims.prod < 2 ^ 31) :
    (List.zipWith (· * ·) idx (strides dims)).sum = flat dims idx := by
  induction hidx with
  | nil => rfl
  | @cons i d inner rest hi hinner ih =>
    obtain ⟨hrest, hrow, hstrides⟩ := strides_row positive hcount
    rw [hstrides, List.zipWith_cons_cons, List.sum_cons, ih hrest hrow, flat_cons]

/-- Every weighted counter is an operand whose value fits. -/
theorem hasValue_terms {env : Counters} {stem : String} (h : isIdentifier stem = true)
    {dims idx : List Nat} (hidx : InBounds dims idx) (positive : ∀ d ∈ dims, 0 < d)
    (hcount : dims.prod < 2 ^ 31) (depth : Nat)
    (hvalues : ∀ p ∈ (nestNames stem depth dims).zip idx, value? env p.1 = some p.2) :
    List.Forall₂ (HasValue env)
      (texts stem (List.zipWith weighted (strides dims) (nestCounters depth dims)))
      (List.zipWith (· * ·) idx (strides dims)) := by
  induction hidx generalizing depth with
  | nil => exact .nil
  | @cons i d inner rest hi hinner ih =>
    obtain ⟨hrest, hrow, hstrides⟩ := strides_row positive hcount
    have hproduct : i * rest.prod < 2 ^ 31 := by
      have := Nat.mul_le_mul_right rest.prod (Nat.le_of_lt hi)
      rw [List.prod_cons] at hcount
      omega
    rw [nestNames_cons, List.zip_cons_cons, List.forall_mem_cons] at hvalues
    rw [hstrides, nestCounters_cons, List.zipWith_cons_cons, List.zipWith_cons_cons, texts]
    exact .cons (hasValue_weighted h hvalues.1 hrow hproduct)
      (ih hrest hrow (depth + 1) hvalues.2)

theorem nestNames_nodup (stem : String) (depth : Nat) (dims : List Nat) :
    (nestNames stem depth dims).Nodup :=
  List.nodup_range.map fun _ _ heq => Nat.add_left_cancel (counterWord_injective stem heq)

/-- The flat index is the position of the element, and everything on the way to it fits. -/
theorem evaluate?_flatIndex {stem : String} (h : isIdentifier stem = true) {dims idx : List Nat}
    (valid : ValidDims dims) (hidx : InBounds dims idx) (depth : Nat) :
    evaluate? ((nestNames stem depth dims).zip idx)
      ((flatIndex dims (nestCounters depth dims)).text stem) = some (flat dims idx) := by
  have hnames : (((nestNames stem depth dims).zip idx).map (·.1)).Nodup := by
    rw [List.map_fst_zip (by simp [nestNames, hidx.length_eq])]
    exact nestNames_nodup stem depth dims
  have hvalues : ∀ p ∈ (nestNames stem depth dims).zip idx,
      value? ((nestNames stem depth dims).zip idx) p.1 = some p.2 := by
    intro p hp
    obtain ⟨j, _, hname⟩ := List.mem_map.mp (List.of_mem_zip hp).1
    exact value?_of_mem hnames (hname ▸ isName_counterWord h _) hp
  have hterms := hasValue_terms h hidx valid.positive valid.count_lt depth hvalues
  have hsum := sum_flat hidx valid.positive valid.count_lt
  have hlt := Nat.lt_trans (flat_lt hidx) valid.count_lt
  rw [flatIndex, Expr.text, evaluate?_sum hterms ?_ (by omega), hsum]
  obtain ⟨d, rest, rfl⟩ := List.exists_cons_of_ne_nil valid.nonempty
  obtain ⟨_, _, hstrides⟩ := strides_row valid.positive valid.count_lt
  rw [hstrides, nestCounters_cons, List.zipWith_cons_cons, texts]
  exact List.cons_ne_nil _ _

/-! ## Visits -/

/-- The text of the loops around one statement reaches it for every index tuple, in row-major
order. -/
theorem visits_nestLines {stem : String} (h : isIdentifier stem = true) {dims : List Nat}
    (valid : ValidDims dims) (indentWidth level depth : Nat)
    {inner : Nat → List Expr → List Line} {ts : List Token}
    (hinner : Reads ((inner (level + dims.length) (nestCounters depth dims)).flatMap
      fun line => tokens line.text) [.simple ts]) :
    ∃ code, read? (renderLines indentWidth (nestLines stem inner level depth [] dims)) = some code ∧
      runAll [] code =
        some ((rowMajor dims).map fun idx => ((nestNames stem depth dims).zip idx, ts)) := by
  have hbounds : ∀ d ∈ dims, d < 2 ^ 31 := fun d hd =>
    Nat.lt_of_le_of_lt (valid.le_prod d hd) valid.count_lt
  have hreads := reads_nestLines h hbounds level depth [] (by simpa using hinner)
  have hruns := runAll_nestCode stem [.simple ts] dims depth [] (fun env => [(env, ts)]) (by simp)
    fun idx _ => rfl
  refine ⟨nestCode stem [.simple ts] depth dims, ?_, ?_⟩
  · rw [read?, tokens_renderLines, hreads [] []]
    rfl
  · rw [hruns, List.map_eq_flatMap]
    rfl

/-- **Loops over an array and positions in it.** Let the dimensions be accepted, and the stem of the
counters an identifier. The text of the loops around a statement is read as code; running it reaches
the statement once for every index tuple, in lexicographic order and as often as there are
elements, with the tuple in the counters; the flat index that is printed for these counters is the
number of the visit, and no stride stops at the limit. -/
theorem nest_visits {site : Site} {dims : List Nat} {n : Nat} (hdims : checkDims site dims = .ok n)
    (s : Scribe) (hstem : isIdentifier s.style.counterStem = true)
    {visit : List Expr → String} {ts : List Token}
    (hvisit : IsSimple (visit (nestCounters s.loopDepth dims)) ts) (result : Except GenError Unit) :
    let names := nestNames s.style.counterStem s.loopDepth dims
    let page := (Page.inLoops none (fun counters p => (p.line (visit counters), result)) [] dims
      (.new s)).1
    (∃ code, read? page.text = some code ∧
      runAll [] code = some ((rowMajor dims).map fun idx => (names.zip idx, ts))) ∧
    (rowMajor dims).length = n ∧
    (rowMajor dims).Pairwise (· < ·) ∧
    (∀ idx, idx ∈ rowMajor dims ↔ InBounds dims idx) ∧
    (∀ k idx, (rowMajor dims)[k]? = some idx →
      evaluate? (names.zip idx)
        ((flatIndex dims (nestCounters s.loopDepth dims)).text s.style.counterStem) = some k) ∧
    strides dims = (List.range dims.length).map fun j => (dims.drop (j + 1)).prod := by
  obtain ⟨valid, hcount⟩ := (checkDims_ok_iff site dims n).mp hdims
  refine ⟨?_, (rowMajor_length dims).trans hcount, rowMajor_sorted dims, fun _ => mem_rowMajor,
    fun k idx hk => ?_, strides_exact valid.positive valid.count_lt⟩
  · have hpage := inLoops_eq (fun counters p => (p.line (visit counters), result))
      (fun level counters => [⟨level, visit counters⟩]) result (fun _ _ => rfl) [] dims (.new s)
    rw [hpage]
    exact visits_nestLines hstem valid _ _ _ fun frames done => by
      simpa [Page.new] using foldlM_simple frames done hvisit
  · -- the tuple of visit `k` is the one at position `k`
    have hidx := mem_rowMajor.mp (List.mem_of_getElem? hk)
    have hposition : flat dims idx = k := by
      have hmap := congrArg (·[k]?) (rowMajor_map_flat dims)
      simp only [List.getElem?_map, hk, Option.map_some] at hmap
      exact (List.getElem?_eq_some_iff.mp hmap.symm).elim fun hlt heq => by simpa using heq.symm
    rw [evaluate?_flatIndex hstem valid hidx, hposition]

namespace Reel

def dims : List Nat := [2, 1, 3]

/-- Inside nine loops, so that the counters of the nest have one and two digits after a stem that
ends in a digit. -/
def scribe : Scribe :=
  { Scribe.new "Reel" ((Generator.mk .default .empty).target .jagged) ⟨2, "k1"⟩ with
    level := 3, loopDepth := 9 }

def visit (counters : List Expr) : String :=
  "Visit(" ++ (flatIndex dims counters).text "k1" ++ ");"

def tokens : List Token :=
  [.word "Visit".toList, .symbol '(', .symbol '(', .word "k19".toList, .symbol '*', .word ['3'],
    .symbol ')', .symbol '+', .symbol '(', .word "k110".toList, .symbol '*', .word ['3'],
    .symbol ')', .symbol '+', .word "k111".toList, .symbol ')']

end Reel

theorem reel_visits :
    (∃ code, read? (Page.inLoops none (fun counters p => (p.line (Reel.visit counters), .ok ())) []
        Reel.dims (.new Reel.scribe)).1.text = some code ∧
      (runAll [] code).map List.length = some 6) ∧
    evaluate? [("k19".toList, 1), ("k110".toList, 0), ("k111".toList, 2)]
      "(k19 * 3) + (k110 * 3) + k111" = some 5 := by
  have hvisit : IsSimple (Reel.visit (nestCounters Reel.scribe.loopDepth Reel.dims)) Reel.tokens :=
    ⟨by decide, by decide, by decide⟩
  obtain ⟨⟨code, hread, hrun⟩, hcount, _, _, hposition, _⟩ :=
    @nest_visits ⟨"Reel", "turns"⟩ Reel.dims 6 rfl Reel.scribe (by decide) _ _ hvisit (.ok ())
  refine ⟨⟨code, hread, ?_⟩, hposition 5 [1, 0, 2] rfl⟩
  rw [hrun, Option.map_some, List.length_map, hcount]

/-- The loops in the bodies of generated methods are the same. -/
theorem loopNest_visits {stem : String} (hstem : isIdentifier stem = true) {dims : List Nat}
    (valid : ValidDims dims) (indentWidth level depth : Nat) {body : List Expr → List Stmt}
    {place value : Expr} (hbody : body (nestCounters depth dims) = [.assign place value])
    {ts : List Token} (hassign : IsSimple (place.text stem ++ " = " ++ value.text stem ++ ";") ts) :
    ∃ code, read? (renderLines indentWidth (bodyLines stem level (loopNest depth dims none body))) =
        some code ∧
      runAll [] code =
        some ((rowMajor dims).map fun idx => ((nestNames stem depth dims).zip idx, ts)) := by
  rw [loopNest, bodyLines_loopNestFrom]
  exact visits_nestLines hstem valid _ _ _ fun frames done => by
    simpa [hbody, bodyLines, Stmt.lines] using foldlM_simple frames done hassign

end Reading

end InteropGen

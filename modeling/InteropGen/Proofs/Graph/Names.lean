import Mathlib.Data.List.Basic
import InteropGen.ScopedName

/-!
# Names and their text form

A scoped name is written by joining its segments with `::` and read by cutting a text at every `::`,
leftmost first. The two undo each other where the segments can be told apart in the text: none holds
a `::`, and only the last may end in a colon.

* `Separated` — lists of pieces that can be told apart;
* `splitScopes_join` — such pieces come back from the text that they are joined to;
* `ScopedName.separable_parse`, `ScopedName.parse_qualified` — a name that was read from a text is
  read again from its own form, whatever empty pieces the text had;
* `ScopedName.separable_iff`, `ScopedName.text_form_faithful` — which lists of segments survive in
  their text, said on the segments themselves.
-/

set_option autoImplicit false

namespace InteropGen

attribute [simp] splitScopes

/-- Nowhere in the text are two colons next to each other. -/
@[simp] def Unbroken : List Char → Prop
  | ':' :: ':' :: _ => False
  | _ :: rest => Unbroken rest
  | [] => True

/-- Pieces that can be told apart when they are joined: each but the last is followed by a
separator, which must not begin earlier than it is written. -/
@[simp] def Separated : List (List Char) → Prop
  | [] => True
  | [last] => Unbroken last
  | piece :: next :: rest => Unbroken (piece ++ [':']) ∧ Separated (next :: rest)

/-- The text of pieces with `::` between them. -/
@[simp] def joinScopes : List (List Char) → List Char
  | [] => []
  | [last] => last
  | piece :: next :: rest => piece ++ ':' :: ':' :: joinScopes (next :: rest)

theorem unbroken_cons {c : Char} {rest : List Char} :
    Unbroken (c :: rest) ↔ ¬(c = ':' ∧ rest.head? = some ':') ∧ Unbroken rest := by
  cases rest with
  | nil => simp [Unbroken]
  | cons d more =>
    by_cases hc : c = ':' <;> by_cases hd : d = ':' <;> simp [Unbroken, hc, hd]

/-- An unbroken text is one without a separator. -/
theorem unbroken_iff {text : List Char} : Unbroken text ↔ ¬[':', ':'] <:+: text := by
  induction text with
  | nil => simp
  | cons c rest ih =>
    have hstart : [':', ':'] <+: c :: rest ↔ c = ':' ∧ rest.head? = some ':' := by
      cases rest <;> simp [List.cons_prefix_cons, eq_comm]
    rw [unbroken_cons, ih, List.infix_cons_iff, hstart, not_or]

/-- What is left of an unbroken text is unbroken. -/
theorem Unbroken.of_append {a b : List Char} (h : Unbroken (a ++ b)) : Unbroken a := by
  induction a with
  | nil => trivial
  | cons c rest ih =>
    obtain ⟨hpair, hrest⟩ := unbroken_cons.mp h
    refine unbroken_cons.mpr ⟨fun hcolons => hpair ?_, ih hrest⟩
    cases rest with
    | nil => simp at hcolons
    | cons d more => exact hcolons

/-- A colon may follow a piece that has no separator and does not end in a colon. -/
theorem unbroken_colon_iff {piece : List Char} :
    Unbroken (piece ++ [':']) ↔ Unbroken piece ∧ ¬[':'] <:+ piece := by
  induction piece with
  | nil => simp
  | cons c rest ih =>
    rw [List.cons_append, unbroken_cons, ih, unbroken_cons, List.suffix_cons_iff]
    cases rest with
    | nil => simp [eq_comm]
    | cons d more => simp [and_assoc]

/-- A character before a text is a character before its first piece, unless it completes a
separator. -/
theorem splitScopes_cons {c : Char} {rest : List Char}
    (h : ¬(c = ':' ∧ rest.head? = some ':')) {piece : List Char} {pieces : List (List Char)}
    (hrest : splitScopes rest = piece :: pieces) :
    splitScopes (c :: rest) = (c :: piece) :: pieces := by
  rw [splitScopes, hrest]
  intro more hc hmore
  exact h ⟨hc, by rw [hmore]; rfl⟩

theorem splitScopes_unbroken {text : List Char} (h : Unbroken text) :
    splitScopes text = [text] := by
  induction text with
  | nil => rfl
  | cons c rest ih =>
    obtain ⟨hpair, hrest⟩ := unbroken_cons.mp h
    exact splitScopes_cons hpair (ih hrest)

/-- A piece is cut off at the separator after it. -/
theorem splitScopes_append {piece rest : List Char} (h : Unbroken (piece ++ [':'])) :
    splitScopes (piece ++ ':' :: ':' :: rest) = piece :: splitScopes rest := by
  induction piece with
  | nil => rfl
  | cons c more ih =>
    obtain ⟨hpair, hmore⟩ := unbroken_cons.mp h
    refine splitScopes_cons (fun hcolons => hpair ?_) (ih hmore)
    cases more with
    | nil => exact hcolons
    | cons d tail => exact hcolons

theorem splitScopes_join {pieces : List (List Char)} (h : Separated pieces) (hne : pieces ≠ []) :
    splitScopes (joinScopes pieces) = pieces := by
  induction pieces with
  | nil => exact absurd rfl hne
  | cons piece rest ih =>
    cases rest with
    | nil => exact splitScopes_unbroken h
    | cons next more =>
      obtain ⟨hpiece, hmore⟩ := h
      rw [joinScopes, splitScopes_append hpiece, ih hmore (by simp)]

theorem Separated.tail {piece : List Char} {rest : List (List Char)}
    (h : Separated (piece :: rest)) : Separated rest := by
  cases rest with
  | nil => trivial
  | cons next more => exact h.2

theorem Separated.head {piece : List Char} {rest : List (List Char)}
    (h : Separated (piece :: rest)) : Unbroken piece := by
  cases rest with
  | nil => exact h
  | cons next more => exact h.1.of_append

theorem splitScopes_ne_nil (text : List Char) : splitScopes text ≠ [] := by
  fun_cases splitScopes text <;> simp

/-- Cutting a text loses nothing. -/
theorem joinScopes_splitScopes (text : List Char) : joinScopes (splitScopes text) = text := by
  fun_induction splitScopes text with
  | case1 => rfl
  | case2 rest ih =>
    obtain ⟨piece, pieces, hpieces⟩ := List.exists_cons_of_ne_nil (splitScopes_ne_nil rest)
    rw [hpieces] at ih ⊢
    rw [joinScopes, ih]
    rfl
  | case3 c rest _ hnil => exact absurd hnil (splitScopes_ne_nil rest)
  | case4 c rest _ piece pieces hpieces ih =>
    rw [hpieces] at ih
    rw [← ih]
    cases pieces <;> rfl

/-- The pieces of any text can be told apart. -/
theorem separated_splitScopes (text : List Char) : Separated (splitScopes text) := by
  fun_induction splitScopes text with
  | case1 => trivial
  | case2 rest ih =>
    obtain ⟨piece, pieces, hpieces⟩ := List.exists_cons_of_ne_nil (splitScopes_ne_nil rest)
    rw [hpieces] at ih ⊢
    exact ⟨trivial, ih⟩
  | case3 c rest _ hnil => exact absurd hnil (splitScopes_ne_nil rest)
  | case4 c rest hsingle piece pieces hpieces ih =>
    -- what follows `c` in its piece is what follows it in the text
    have htext := joinScopes_splitScopes rest
    rw [hpieces] at ih htext
    have hpair : ¬(c = ':' ∧ rest.head? = some ':') := by
      rintro ⟨hc, hrest⟩
      obtain ⟨more, hmore⟩ := List.head?_eq_some_iff.mp hrest
      exact hsingle more hc hmore
    cases pieces with
    | nil =>
      rw [joinScopes] at htext
      subst htext
      exact unbroken_cons.mpr ⟨hpair, ih⟩
    | cons next tail =>
      refine ⟨unbroken_cons.mpr ⟨fun hcolons => hpair ⟨hcolons.1, ?_⟩, ih.1⟩, ih.2⟩
      rw [← htext, joinScopes]
      cases piece <;> exact hcolons.2

/-- Pieces can be told apart if none of them holds a separator and none but the last ends in a
colon. -/
theorem separated_iff {pieces : List (List Char)} :
    Separated pieces ↔ (∀ piece ∈ pieces, ¬[':', ':'] <:+: piece) ∧
      ∀ piece ∈ pieces.dropLast, ¬[':'] <:+ piece := by
  induction pieces with
  | nil => simp
  | cons piece rest ih =>
    cases rest with
    | nil => simp [unbroken_iff]
    | cons next more =>
      rw [Separated, ih, unbroken_colon_iff, unbroken_iff, List.dropLast_cons_cons]
      simp only [List.forall_mem_cons]
      exact and_and_and_comm

/-- Empty pieces can be left out. -/
theorem Separated.filter {pieces : List (List Char)} (h : Separated pieces)
    (keep : List Char → Bool) : Separated (pieces.filter keep) := by
  induction pieces with
  | nil => trivial
  | cons piece rest ih =>
    have hrest := ih h.tail
    rw [List.filter_cons]
    split
    · cases hkept : rest.filter keep with
      | nil => exact h.head
      | cons next more =>
        rw [hkept] at hrest
        cases rest with
        | nil => simp at hkept
        | cons second tail => exact ⟨h.1, hrest⟩
    · exact hrest

namespace ScopedName

/-- The segments can be told apart in the `A::B::C` form. -/
def Separable (n : ScopedName) : Prop :=
  Separated (n.segments.map String.toList)

theorem toList_qualified (n : ScopedName) :
    n.qualified.toList = joinScopes (n.segments.map String.toList) := by
  unfold qualified
  induction n.segments with
  | nil => rfl
  | cons piece rest ih =>
    cases rest with
    | nil => simp [joinScopes]
    | cons next more =>
      rw [String.intercalate_cons_cons, String.toList_append, String.toList_append, ih]
      simp [joinScopes]

theorem ofSegments_segments (n : ScopedName) : ofSegments n.segments = n := by
  obtain ⟨segments, nonempty⟩ := n
  simpa [ofSegments] using nonempty

/-- A name is read from its own form. -/
theorem parse_qualified {n : ScopedName} (h : n.Separable) : parse n.qualified = n := by
  unfold parse
  rw [toList_qualified]
  by_cases hnil : n.segments = []
  · have hempty : n = ofSegments [] := by rw [← ofSegments_segments n, hnil]
    rw [hempty]
    rfl
  · rw [splitScopes_join h (by simpa using hnil), List.map_map]
    simpa [Function.comp_def] using ofSegments_segments n

/-- A name that was read from a text. -/
theorem separable_parse (text : String) : (parse text).Separable := by
  have hkeep : (parse text).segments.map String.toList =
      (splitScopes text.toList).filter fun piece => decide (String.ofList piece ≠ "") := by
    simp [parse, ofSegments, List.filter_map, Function.comp_def]
  unfold Separable
  rw [hkeep]
  exact (separated_splitScopes text.toList).filter _

/-- A name is read from its own form only if its segments can be told apart in it, because those of
a name that was read from a text can. -/
theorem separable_iff {n : ScopedName} : parse n.qualified = n ↔ n.Separable :=
  ⟨fun h => h ▸ separable_parse n.qualified, parse_qualified⟩

/-- The name with given segments is read from its text form exactly if no segment holds a `::` and
none but the last ends in a colon. A name that was read from a text always is. -/
theorem text_form_faithful :
    (∀ l : List String, parse (ofSegments l).qualified = ofSegments l ↔
      (∀ s ∈ l.filter (· ≠ ""), ¬[':', ':'] <:+: s.toList) ∧
        ∀ s ∈ (l.filter (· ≠ "")).dropLast, ¬[':'] <:+ s.toList) ∧
    ∀ text : String, (parse (parse text).qualified).segments = (parse text).segments := by
  refine ⟨fun l => ?_, fun text => by rw [parse_qualified (separable_parse text)]⟩
  rw [separable_iff, Separable, separated_iff, ← List.map_dropLast]
  simp only [ofSegments, List.forall_mem_map]

/-- The colon at the end of a segment goes to the next one. -/
example : (parse (ofSegments ["a:", "b"]).qualified).segments = ["a", ":b"] := by decide

end ScopedName

end InteropGen

import Mathlib.Data.List.Basic
import InteropGen.CSharp.Stmt
import InteropGen.Text.Pieces

/-!
# Blocks of printed code

A text is scanned line by line, with the depth of the blocks that are open. Lines are built from
plain lines, empty lines and blocks, and such lines are scanned from one depth to the same depth
again, whatever stands in them.

* `scanLine` — one line: a brace by itself opens or closes a block, and every line that is not empty
  is indented by the depth it belongs to;
* `Nested` — lines in which every block is closed;
* `blocked_renderLines` — the text of such lines.
-/

set_option autoImplicit false

namespace InteropGen

open CSharp

/-! ## Scanning -/

/-- The depth after a line that is scanned at a depth, unless the line has another indentation than
its place demands or closes a block that is not open. -/
def scanLine (indentWidth depth : Nat) (line : List Char) : Option Nat :=
  let indentation := (line.takeWhile (· = ' ')).length
  let text := line.dropWhile (· = ' ')
  if line = [] then some depth
  else if text = [] then none
  else if text = ['\x7b'] then
    if indentation = indentWidth * depth then some (depth + 1) else none
  else if text = ['\x7d'] then
    match depth with
    | 0 => none
    | outer + 1 => if indentation = indentWidth * outer then some outer else none
  else if indentation = indentWidth * depth then some depth
  else none

/-- The lines of a text, scanned one after the other. -/
def scan (indentWidth depth : Nat) (text : List Char) : Option Nat :=
  (Text.pieces '\n' text).foldlM (scanLine indentWidth) depth

/-- Every block of the text is closed in its place, and every line indented accordingly. -/
def Blocked (indentWidth : Nat) (text : String) : Prop :=
  scan indentWidth 0 text.toList = some 0

/-! ## Plain lines -/

/-- The text has no line end. -/
def OneLine (text : String) : Prop :=
  '\n' ∉ text.toList

instance (text : String) : Decidable (OneLine text) :=
  inferInstanceAs (Decidable ('\n' ∉ text.toList))

/-- The text begins with something other than a blank or a brace. -/
def Flush (text : String) : Prop :=
  ∃ c ∈ text.toList.head?, c ≠ ' ' ∧ c ≠ '\x7b' ∧ c ≠ '\x7d'

instance (text : String) : Decidable (Flush text) :=
  decidable_of_iff (text.toList.head?.any fun c => c ≠ ' ' ∧ c ≠ '\x7b' ∧ c ≠ '\x7d') (by
    simp [Flush, Option.any_eq_true])

theorem Flush.exists_cons {text : String} (h : Flush text) :
    ∃ c rest, text.toList = c :: rest ∧ c ≠ ' ' ∧ c ≠ '\x7b' ∧ c ≠ '\x7d' := by
  obtain ⟨c, hhead, hc⟩ := h
  obtain ⟨rest, htext⟩ := List.head?_eq_some_iff.mp hhead
  exact ⟨c, rest, htext, hc⟩

/-- The text of a line that neither opens nor closes a block. -/
structure PlainText (text : String) : Prop where
  oneLine : OneLine text
  flush : Flush text

/-- Lines of which those at the margin are at `level`, with whole blocks between them. -/
inductive Nested : (level : Nat) → List Line → Prop
  | nil (level : Nat) : Nested level []
  | blank {level : Nat} {rest : List Line} (hrest : Nested level rest) :
      Nested level (Line.blank :: rest)
  | line {level : Nat} {text : String} {rest : List Line} (htext : PlainText text)
      (hrest : Nested level rest) : Nested level (⟨level, text⟩ :: rest)
  | block {level : Nat} {inner rest : List Line} (hinner : Nested (level + 1) inner)
      (hrest : Nested level rest) : Nested level (braced level inner ++ rest)

theorem Nested.append {level : Nat} {a b : List Line} (ha : Nested level a) (hb : Nested level b) :
    Nested level (a ++ b) := by
  induction ha with
  | nil => exact hb
  | blank _ ih => exact .blank (ih hb)
  | line htext _ ih => exact .line htext (ih hb)
  | block hinner _ _ ih =>
    rw [List.append_assoc]
    exact .block hinner (ih hb)

theorem Nested.flatMap {α : Type} {level : Nat} {items : List α} {lines : α → List Line}
    (h : ∀ item ∈ items, Nested level (lines item)) : Nested level (items.flatMap lines) := by
  induction items with
  | nil => exact .nil level
  | cons item rest ih =>
    obtain ⟨hitem, hrest⟩ := List.forall_mem_cons.mp h
    exact hitem.append (ih hrest)

theorem Nested.braced {level : Nat} {inner : List Line} (h : Nested (level + 1) inner) :
    Nested level (braced level inner) := by
  simpa using Nested.block h (.nil level)

theorem Nested.single {level : Nat} {text : String} (h : PlainText text) :
    Nested level [⟨level, text⟩] :=
  .line h (.nil level)

theorem Nested.headed {level : Nat} {header : String} {inner : List Line} (h : PlainText header)
    (hinner : Nested (level + 1) inner) :
    Nested level (⟨level, header⟩ :: CSharp.braced level inner) :=
  .line h hinner.braced

/-! ## Scanning printed lines -/

/-- The characters of a line, without its end. -/
def lineChars (indentWidth : Nat) (line : Line) : List Char :=
  if line.text = "" then []
  else List.replicate (indentWidth * line.level) ' ' ++ line.text.toList

theorem pieces_line {line rest : List Char} (h : '\n' ∉ line) :
    Text.pieces '\n' (line ++ '\n' :: rest) = line :: Text.pieces '\n' rest := by
  induction line with
  | nil => simp [Text.pieces]
  | cons c more ih =>
    rw [List.mem_cons, not_or] at h
    rw [List.cons_append, Text.pieces, if_neg (Ne.symm h.1), ih h.2]

theorem render_toList (indentWidth : Nat) (line : Line) :
    (line.render indentWidth).toList = lineChars indentWidth line ++ ['\n'] := by
  unfold Line.render lineChars
  split
  · rfl
  · simp

theorem scan_line {indentWidth depth next : Nat} {line : Line} (h : OneLine line.text)
    (hnext : scanLine indentWidth depth (lineChars indentWidth line) = some next)
    (rest : List Char) :
    scan indentWidth depth ((line.render indentWidth).toList ++ rest) =
      scan indentWidth next rest := by
  have hchars : '\n' ∉ lineChars indentWidth line := by
    unfold lineChars
    split
    · simp
    · intro hmem
      rcases List.mem_append.mp hmem with hspace | htext
      · exact absurd (List.eq_of_mem_replicate hspace) (by decide)
      · exact h htext
  rw [scan, render_toList, List.append_assoc, List.singleton_append, pieces_line hchars,
    List.foldlM_cons, hnext]
  rfl

/-- A text behind blanks, as a line is scanned. -/
theorem indented {c : Char} (hc : c ≠ ' ') (n : Nat) (rest : List Char) :
    (List.replicate n ' ' ++ c :: rest).takeWhile (· = ' ') = List.replicate n ' ' ∧
      (List.replicate n ' ' ++ c :: rest).dropWhile (· = ' ') = c :: rest := by
  induction n with
  | zero => simp [hc]
  | succ n ih =>
    rw [List.replicate_succ, List.cons_append, List.takeWhile_cons, List.dropWhile_cons]
    simp only [decide_true, if_true, ih.1, ih.2, and_self]

theorem scanLine_plain (indentWidth level : Nat) {text : String} (h : Flush text) :
    scanLine indentWidth level (lineChars indentWidth ⟨level, text⟩) = some level := by
  obtain ⟨c, rest, htext, hblank, hopen, hclose⟩ := h.exists_cons
  obtain ⟨htake, hdrop⟩ := indented hblank (indentWidth * level) rest
  have hne : text ≠ "" := by
    rintro rfl
    cases htext
  simp only [lineChars, scanLine, hne, if_false, htext, htake, hdrop]
  simp [hopen, hclose]

theorem scanLine_open (indentWidth level : Nat) :
    scanLine indentWidth level (lineChars indentWidth ⟨level, "\x7b"⟩) = some (level + 1) := by
  simp [lineChars, scanLine]

theorem scanLine_close (indentWidth level : Nat) :
    scanLine indentWidth (level + 1) (lineChars indentWidth ⟨level, "\x7d"⟩) = some level := by
  simp [lineChars, scanLine]

/-- Lines whose blocks are closed are scanned from their own level to the same level. -/
theorem scan_nested (indentWidth : Nat) {level : Nat} {lines : List Line} (h : Nested level lines)
    (rest : List Char) :
    scan indentWidth level ((renderLines indentWidth lines).toList ++ rest) =
      scan indentWidth level rest := by
  have hcons : ∀ (line : Line) (lines : List Line) (rest : List Char),
      (renderLines indentWidth (line :: lines)).toList ++ rest =
        (line.render indentWidth).toList ++ ((renderLines indentWidth lines).toList ++ rest) := by
    intro line lines rest
    simp [renderLines, String.join_cons]
  have happend : ∀ (a b : List Line) (rest : List Char),
      (renderLines indentWidth (a ++ b)).toList ++ rest =
        (renderLines indentWidth a).toList ++ ((renderLines indentWidth b).toList ++ rest) := by
    intro a b rest
    induction a with
    | nil => rfl
    | cons line more ih => rw [List.cons_append, hcons, ih, hcons]
  have hnil : ∀ rest, (renderLines indentWidth []).toList ++ rest = rest := fun _ => rfl
  have hopen : OneLine "\x7b" := by decide
  have hclose : OneLine "\x7d" := by decide
  induction h generalizing rest with
  | nil => rw [hnil]
  | blank _ ih =>
    rw [hcons, scan_line (by simp [OneLine, Line.blank]) (by rfl), ih]
  | line htext _ ih =>
    rw [hcons, scan_line htext.oneLine (scanLine_plain indentWidth _ htext.flush), ih]
  | block _ _ hinner hrest =>
    rw [happend, braced, List.cons_append, hcons, happend, hcons, hnil,
      scan_line hopen (scanLine_open indentWidth _), hinner,
      scan_line hclose (scanLine_close indentWidth _), hrest]

theorem blocked_renderLines (indentWidth : Nat) {lines : List Line} (h : Nested 0 lines) :
    Blocked indentWidth (renderLines indentWidth lines) := by
  have hscan := scan_nested indentWidth h []
  rw [List.append_nil] at hscan
  rw [Blocked, hscan]
  rfl

end InteropGen

import InteropGen.Json.Reader
import InteropGen.Yaml.Place

/-!
# YAML scalars

The five ways to write a scalar: plain, in single quotes, in double quotes, and as a literal or a
folded block of lines.

Plain and quoted scalars may go on over several lines. What stands between two words is a `Gap`:
blanks on one line are kept, a single line break counts as a space, and of several line feeds all
but the first are kept. Blocks keep their lines; a folded one joins lines that start with no blank.
-/

set_option autoImplicit false

namespace InteropGen.Yaml

/-- How a scalar is written. -/
inductive Style where
  | plain | singleQuoted | doubleQuoted | literal | folded
  deriving DecidableEq

/-- What stands between two words of a scalar, latest first: blanks within a line, or line breaks
with any blanks around them. An escaped line break stands first as `none`. -/
inductive Gap where
  | blanks (text : List Char)
  | breaks (more : List Char) (first : Option Char)

namespace Gap

/-- Nothing between two words. -/
def empty : Gap := .blanks []

def isEmpty : Gap → Bool
  | .blanks text => text.isEmpty
  | .breaks _ _ => false

def hasBreak : Gap → Bool
  | .blanks _ => false
  | .breaks _ _ => true

/-- A gap that goes on with a blank or a line break. -/
def push (c : Char) : Gap → Gap
  | .blanks text => if isBreak c then .breaks [] (some c) else .blanks (c :: text)
  | .breaks more first => if isBreak c then .breaks (c :: more) first else .breaks more first

/-- The characters that a gap stands for. -/
def text : Gap → List Char
  | .blanks text => text.reverse
  | .breaks more first =>
    if first = some '\n' then if more.isEmpty then [' '] else more.reverse
    else first.toList ++ more.reverse

end Gap

/-! ## Plain scalars -/

/-- The characters that no plain scalar starts with, blanks apart; `-`, `?` and `:` are allowed
under conditions. -/
def isIndicator (c : Char) : Bool :=
  isFlowSign c ||
    c ∈ ['-', '?', ':', '#', '&', '*', '!', '|', '>', '\'', '"', '%', '@', '\x60']

/-- Whether a plain scalar starts here. -/
def plainNext (flow : Bool) (s : List Placed) : Bool :=
  match s with
  | [] => false
  | p :: rest =>
    (!blankNext s && !isIndicator p.char) ||
      (p.char = '-' && !nextIs isBlank rest) ||
      (!flow && (p.char = '?' || p.char = ':') && !blankNext rest)

/-- Whether a plain scalar ends before the next character, which is no blank, after a gap. In a
block, the lines of a scalar start in column `least` or beyond. -/
def plainEnds (flow : Bool) (least : Nat) (gap : Gap) (s : List Placed) : Bool :=
  match s with
  | [] => true
  | p :: rest =>
    (!gap.isEmpty && (boundaryNext s || p.char = '#' || (!flow && p.column < least))) ||
      (p.char = ':' && blankNext rest) || (flow && isFlowSign p.char)

/-- The rest of a plain scalar after a gap, whether it ends with a line break, and what follows it.
`none` if a tab takes part in the indentation, or if a colon within a flow collection is neither
the end of a key nor a part of a word. -/
def plainRest? (flow : Bool) (least : Nat) :
    Gap → List Placed → Option (List Char × Bool × List Placed)
  | gap, [] => some ([], gap.hasBreak, [])
  | gap, p :: rest =>
    if isBlank p.char || isBreak p.char then
      if p.char = '\t' && gap.hasBreak && p.column < least then none
      else plainRest? flow least (gap.push p.char) rest
    else if plainEnds flow least gap (p :: rest) then some ([], gap.hasBreak, p :: rest)
    else if flow && p.char = ':' && nextIs (fun c => isFlowSign c || c = '?') rest then none
    else
      (plainRest? flow least .empty rest).map fun (text, more) =>
        (gap.text ++ p.char :: text, more)

/-! ## Quoted scalars -/

/-- The characters up to the closing quote, and what follows it. In single quotes, a quote that is
written twice stands for one; in double quotes, what follows a backslash does not end the text. No
line of it may start or end a document. -/
def quotedBody? (double : Bool) : List Placed → Option (List Char × List Placed)
  | [] => none
  | p :: rest =>
    if boundaryNext (p :: rest) then none
    else if p.char = (if double then '"' else '\'') then
      match rest with
      | q :: rest =>
        if !double && q.char = '\'' then
          (quotedBody? double rest).map fun (text, rest) => ('\'' :: text, rest)
        else some ([], q :: rest)
      | [] => some ([], [])
    else if double && p.char = '\\' then
      match rest with
      | q :: rest =>
        (quotedBody? double rest).map fun (text, rest) => (p.char :: q.char :: text, rest)
      | [] => none
    else (quotedBody? double rest).map fun (text, rest) => (p.char :: text, rest)

/-- The character of an escape with one letter. -/
def escapeOf? : Char → Option Char
  | '0' => some '\x00'
  | 'a' => some '\x07'
  | 'b' => some '\x08'
  | 't' | '\t' => some '\t'
  | 'n' => some '\n'
  | 'v' => some '\x0b'
  | 'f' => some '\x0c'
  | 'r' => some '\r'
  | 'e' => some '\x1b'
  | ' ' => some ' '
  | '"' => some '"'
  | '/' => some '/'
  | '\\' => some '\\'
  | 'N' => some '\u0085'
  | '_' => some '\u00a0'
  | 'L' => some '\u2028'
  | 'P' => some '\u2029'
  | _ => none

/-- The character whose code hexadecimal digits spell; surrogates are none. -/
def codePoint? (digits : List Char) : Option Char := do
  let code := (← digits.mapM Json.hexValue?).foldl (fun n d => 16 * n + d) 0
  if code < 0x110000 ∧ !(0xD800 ≤ code ∧ code < 0xE000) then some (Char.ofNat code) else none

/-- The text of a scalar in double quotes after a gap, from its characters between the quotes. -/
def unescape? : Gap → List Char → Option (List Char)
  | gap, [] => some gap.text
  | gap, '\\' :: 'x' :: a :: b :: rest => do
    return gap.text ++ (← codePoint? [a, b]) :: (← unescape? .empty rest)
  | gap, '\\' :: 'u' :: a :: b :: c :: d :: rest => do
    return gap.text ++ (← codePoint? [a, b, c, d]) :: (← unescape? .empty rest)
  | gap, '\\' :: 'U' :: a :: b :: c :: d :: e :: f :: g :: h :: rest => do
    return gap.text ++ (← codePoint? [a, b, c, d, e, f, g, h]) :: (← unescape? .empty rest)
  | gap, '\\' :: e :: rest => do
    -- An escaped line break joins the lines without a space.
    if isBreak e then return gap.text ++ (← unescape? (.breaks [] none) rest)
    else return gap.text ++ (← escapeOf? e) :: (← unescape? .empty rest)
  | gap, c :: rest => do
    if isBlank c || isBreak c then unescape? (gap.push c) rest
    else return gap.text ++ c :: (← unescape? .empty rest)

/-- The text of a scalar in single quotes after a gap, from its characters between the quotes. -/
def joinLines : Gap → List Char → List Char
  | gap, [] => gap.text
  | gap, c :: rest =>
    if isBlank c || isBreak c then joinLines (gap.push c) rest
    else gap.text ++ c :: joinLines .empty rest

/-- The text of a quoted scalar after its opening quote, and what follows it. -/
def quoted? (double : Bool) (s : List Placed) : Option (List Char × List Placed) := do
  let (body, rest) ← quotedBody? double s
  return (← if double then unescape? .empty body else some (joinLines .empty body), rest)

/-! ## Blocks of lines -/

/-- Which line breaks at the end of a block belong to it: none, the first, or all. -/
inductive Chomping where
  | strip | clip | keep

/-- What is written after the sign of a block: how to chomp it and by how many columns it is
indented, in either order, and what follows. -/
def blockHeader? (s : List Placed) : Option (Chomping × Option Nat × List Placed) :=
  let chomping : List Placed → Chomping × List Placed
    | p :: rest =>
      if p.char = '+' then (.keep, rest) else if p.char = '-' then (.strip, rest)
      else (.clip, p :: rest)
    | [] => (.clip, [])
  match s with
  | p :: rest =>
    if p.char.isDigit then
      let (chomp, rest) := chomping rest
      if p.char = '0' then none else some (chomp, some (p.char.toNat - '0'.toNat), rest)
    else
      match chomping s with
      | (.clip, rest) => some (.clip, none, rest)
      | (chomp, p :: rest) =>
        if p.char = '0' then none
        else if p.char.isDigit then some (chomp, some (p.char.toNat - '0'.toNat), rest)
        else some (chomp, none, p :: rest)
      | (chomp, []) => some (chomp, none, [])
  | [] => some (.clip, none, [])

/-- The column in which the first line with content stands, or the end of a longer line of spaces
before it; `most` is the greatest column so far. `none` if a tab takes part in the indentation. -/
def blockColumn? : (most : Nat) → List Placed → Option Nat
  | most, [] => some most
  | most, p :: rest =>
    if p.char = ' ' then blockColumn? (max most (p.column + 1)) rest
    else if p.char = '\t' then none
    else if isBreak p.char then blockColumn? most rest
    else some most

/-- Where the reading of a block stands: within a line, or after a line break and further empty
lines, latest first. Both know whether the last line with content started with a blank. -/
inductive BlockPlace where
  | within (blank : Bool)
  | between (blank : Bool) (first : Option Char) (more : List Char)

/-- What joins a line of a block, which starts with a blank or not, to the line before it. -/
def blockJoin (style : Style) (before : Bool) (first : Option Char) (more : List Char)
    (after : Bool) : List Char :=
  if style = .folded && first = some '\n' && !before && !after then
    if more.isEmpty then [' '] else more.reverse
  else first.toList ++ more.reverse

/-- The line breaks at the end of a block that belong to it. -/
def Chomping.tail (first : Option Char) (more : List Char) : Chomping → List Char
  | .strip => []
  | .clip => first.toList
  | .keep => first.toList ++ more.reverse

/-- The rest of a block whose lines start in a column, and what follows it. `none` if a tab takes
part in the indentation. -/
def blockRest? (style : Style) (chomping : Chomping) (column : Nat) :
    BlockPlace → List Placed → Option (List Char × List Placed)
  | .within _, [] => some ([], [])
  | .between _ first more, [] => some (chomping.tail first more, [])
  | .within blank, p :: rest =>
    if isBreak p.char then blockRest? style chomping column (.between blank (some p.char) []) rest
    else
      (blockRest? style chomping column (.within blank) rest).map fun (text, rest) =>
        (p.char :: text, rest)
  | .between blank first more, p :: rest =>
    if p.char = ' ' && p.column < column then
      blockRest? style chomping column (.between blank first more) rest
    else if p.char = '\t' && p.column < column then none
    else if isBreak p.char then
      blockRest? style chomping column (.between blank first (p.char :: more)) rest
    else if p.column = column then
      let after := isBlank p.char
      (blockRest? style chomping column (.within after) rest).map fun (text, rest) =>
        (blockJoin style blank first more after ++ p.char :: text, rest)
    else some (chomping.tail first more, p :: rest)

/-- The text of a block after its sign, and what follows it. Its lines start in column `least` or
beyond; an indentation that is written counts from the column of the block around it. -/
def block? (style : Style) (least : Nat) (s : List Placed) :
    Option (List Char × List Placed) := do
  let (chomping, indentation, rest) ← blockHeader? s
  let rest ← endOfLine? rest
  let column ←
    match indentation with
    | some n => some (least - 1 + n)
    | none => (blockColumn? 0 rest).map fun column => max (max column least) 1
  blockRest? style chomping column (.between false none []) rest

end InteropGen.Yaml

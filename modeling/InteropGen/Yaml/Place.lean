/-!
# Places in a YAML text

A text as its characters in order, each with the place where it stands: blocks are told apart by
columns, and keys by lines.

Line breaks are unified: a carriage return, a line feed, the two together and a next-line character
all stand as one line feed. The line and paragraph separators are line breaks too, but stay what
they are.
-/

set_option autoImplicit false

namespace InteropGen.Yaml

/-- A character and its place; lines and columns count from zero. -/
structure Placed where
  char : Char
  line : Nat
  column : Nat

/-- A space or tab. -/
def isBlank (c : Char) : Bool :=
  c = ' ' || c = '\t'

/-- A line break, once line breaks are unified. -/
def isBreak (c : Char) : Bool :=
  c = '\n' || c = '\u2028' || c = '\u2029'

/-- The characters that the unified line feed stands for. -/
def isLineEnd (c : Char) : Bool :=
  c = '\r' || c = '\n' || c = '\u0085'

/-- The characters from a place on, with their places. -/
def placeFrom (line column : Nat) : List Char → List Placed
  | '\r' :: '\n' :: rest => ⟨'\n', line, column⟩ :: placeFrom (line + 1) 0 rest
  | c :: rest =>
    let c := if isLineEnd c then '\n' else c
    ⟨c, line, column⟩ ::
      if isBreak c then placeFrom (line + 1) 0 rest else placeFrom line (column + 1) rest
  | [] => []

/-- The characters that may stand in a YAML text. -/
def isAllowed (c : Char) : Bool :=
  let n := c.toNat
  n == 0x09 || n == 0x0A || n == 0x0D || (0x20 ≤ n && n ≤ 0x7E) || n == 0x85 ||
    (0xA0 ≤ n && n ≤ 0xFFFD) || 0x10000 ≤ n

/-- The characters of a text with their places; `none` if one of them may not stand in a text. -/
def place? (text : String) : Option (List Placed) :=
  if text.toList.all isAllowed then some (placeFrom 0 0 text.toList) else none

/-- Whether the next character has a property. -/
def nextIs (property : Char → Bool) : List Placed → Bool
  | p :: _ => property p.char
  | [] => false

/-- Whether a blank or a line break comes next, or nothing at all. -/
def blankNext : List Placed → Bool
  | p :: _ => isBlank p.char || isBreak p.char
  | [] => true

/-- Whether a line break comes next, or nothing at all. -/
def breakNext : List Placed → Bool
  | p :: _ => isBreak p.char
  | [] => true

/-- Whether three of a character stand alone at the start of a line. -/
def markerNext (c : Char) (s : List Placed) : Bool :=
  match s with
  | p :: _ => p.column = 0 && (s.take 3).map (·.char) = [c, c, c] && blankNext (s.drop 3)
  | [] => false

/-- Whether a document starts or ends here: with `---` or `...` at the start of a line. -/
def boundaryNext (s : List Placed) : Bool :=
  markerNext '-' s || markerNext '.' s

/-- The longest stretch of characters with a property, and what follows it. -/
def stretch (property : Char → Bool) (s : List Placed) : List Char × List Placed :=
  ((s.takeWhile (property ·.char)).map (·.char), s.dropWhile (property ·.char))

/-- The characters of the names of anchors, tag handles and directives. -/
def isNameChar (c : Char) : Bool :=
  c.isAlphanum || c = '_' || c = '-'

/-- The characters that structure flow collections. -/
def isFlowSign (c : Char) : Bool :=
  c = ',' || c = '[' || c = ']' || c = '\x7b' || c = '\x7d'

/-- What follows a line of which nothing is left but blanks and a comment. -/
def endOfLine? (s : List Placed) : Option (List Placed) :=
  let rest := s.dropWhile (isBlank ·.char)
  let rest := if nextIs (· = '#') rest then rest.dropWhile (!isBreak ·.char) else rest
  if breakNext rest then some (rest.drop 1) else none

end InteropGen.Yaml

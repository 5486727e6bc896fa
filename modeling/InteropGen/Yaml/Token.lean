import InteropGen.Yaml.Scalar

/-!
# YAML tokens

The parts that a document is put together from. Blocks are spelled by indentation, so their ends
are tokens that stand nowhere in the text.

This module reads the tokens that consist of names: directives, anchors, aliases and tags.
-/

set_option autoImplicit false

namespace InteropGen.Yaml

inductive Token where
  /-- The version of the language that a document is written in. -/
  | version (major minor : Nat)
  /-- A handle that stands for the start of a tag. -/
  | tagHandle (handle start : String)
  | documentStart
  | documentEnd
  | blockSequence
  | blockMapping
  | blockEnd
  | openSequence
  | closeSequence
  | openMapping
  | closeMapping
  /-- The dash before an item. -/
  | item
  | comma
  | key
  | value
  | alias (name : String)
  | anchor (name : String)
  | tag (handle suffix : String)
  | scalar (style : Style) (text : String)
  deriving DecidableEq

/-- The name of an anchor or alias after its sign, and what follows it. -/
def anchorName? (s : List Placed) : Option (String × List Placed) :=
  let (name, rest) := stretch isNameChar s
  let ends := blankNext rest || nextIs (· ∈ ['?', ':', ',', ']', '\x7d', '%', '@', '\x60']) rest
  if !name.isEmpty && ends then some (String.ofList name, rest) else none

/-! ## Tags -/

/-- The characters of a tag. -/
def isTagChar (c : Char) : Bool :=
  isNameChar c ||
    c ∈ [';', '/', '?', ':', '@', '&', '=', '+', '$', '.', '%', '!', '~', '*', '\'', '(', ')']

/-- The characters of a tag in angle brackets, or of the start that a handle stands for. -/
def isWholeTagChar (c : Char) : Bool :=
  isTagChar c || c ∈ [',', '[', ']']

/-- The bytes that the characters of a tag stand for. -/
def tagBytes? : List Char → Option (List UInt8)
  | '%' :: a :: b :: rest => do
    let byte := 16 * (← Json.hexValue? a) + (← Json.hexValue? b)
    return byte.toUInt8 :: (← tagBytes? rest)
  | c :: rest => do
    if c = '%' then none else return c.toNat.toUInt8 :: (← tagBytes? rest)
  | [] => some []

/-- The text of a tag from its characters; escaped bytes are UTF-8. -/
def tagText? (cs : List Char) : Option String := do
  String.fromUTF8? ⟨(← tagBytes? cs).toArray⟩

/-- A tag after its exclamation mark, and what follows it: whole in angle brackets, or a handle
and a suffix. The mark alone is a tag of its own. -/
def tag? (s : List Placed) : Option (Token × List Placed) := do
  if nextIs (· = '<') s then
    let (text, rest) := stretch isWholeTagChar (s.drop 1)
    if !text.isEmpty && nextIs (· = '>') rest then
      return (.tag "" (← tagText? text), rest.drop 1)
    else none
  else
    let (name, rest) := stretch isNameChar s
    if nextIs (· = '!') rest then
      let (text, rest) := stretch isTagChar (rest.drop 1)
      if text.isEmpty then none
      else return (.tag (String.ofList ('!' :: name ++ ['!'])) (← tagText? text), rest)
    else
      let (text, rest) := stretch isTagChar s
      if text.isEmpty then return (.tag "" "!", rest)
      else return (.tag "!" (← tagText? text), rest)

/-! ## Directives -/

/-- A number of at most nine digits, and what follows it. -/
def versionNumber? (s : List Placed) : Option (Nat × List Placed) :=
  let (digits, rest) := stretch Char.isDigit s
  if digits.isEmpty || 9 < digits.length then none else some (Decimal.digitsValue digits, rest)

/-- A handle of tags, and what follows it: an exclamation mark, or a name between two. -/
def tagHandle? (s : List Placed) : Option (String × List Placed) :=
  if nextIs (· = '!') s then
    let (name, rest) := stretch isNameChar (s.drop 1)
    if nextIs (· = '!') rest then some (String.ofList ('!' :: name ++ ['!']), rest.drop 1)
    else if name.isEmpty then some ("!", rest)
    else none
  else none

/-- A directive after its percent sign, and what follows its line. -/
def directive? (s : List Placed) : Option (Token × List Placed) := do
  let (name, rest) := stretch isNameChar s
  let blanks := (stretch isBlank · |>.2)
  if !blankNext rest then none
  else if name = "YAML".toList then
    let (major, rest) ← versionNumber? (blanks rest)
    if nextIs (· = '.') rest then
      let (minor, rest) ← versionNumber? (rest.drop 1)
      return (.version major minor, ← endOfLine? rest)
    else none
  else if name = "TAG".toList then
    let (handle, rest) ← tagHandle? (blanks rest)
    let (start, after) := stretch isWholeTagChar (blanks rest)
    if nextIs isBlank rest && !start.isEmpty && blankNext after then
      return (.tagHandle handle (← tagText? start), ← endOfLine? after)
    else none
  else none

end InteropGen.Yaml

import InteropGen.Yaml.Token

/-!
# Reading YAML tokens

A lexer between two tokens knows the columns of the open blocks and, for every open flow
collection, the token that may turn out to be a key. Nothing marks a key before its colon: when the
colon comes, the token `key` is put in front of it after the fact, and with it the start of a block
mapping if there is none in its column. The colon stands on the line where the key starts, at most
`keyReach` columns further on.
-/

set_option autoImplicit false

namespace InteropGen.Yaml

/-- How many columns a key may reach up to its colon. -/
def keyReach : Nat := 1024

/-- A token that is a key if a colon follows. -/
structure PossibleKey where
  /-- Whether nothing but a key can stand here. -/
  required : Bool
  /-- How many tokens stand before it. -/
  position : Nat
  start : Placed

/-- Whether a colon at a place comes too late for a key. -/
def PossibleKey.isStale (k : PossibleKey) (p : Placed) : Bool :=
  k.start.line < p.line || k.start.column + keyReach < p.column

/-- A lexer between two tokens. -/
structure Lexer where
  rest : List Placed
  /-- The tokens so far, latest first. -/
  tokens : List Token
  /-- Whether a key may start at the next token. -/
  keyAllowed : Bool
  /-- The possible key in the innermost collection. -/
  key : Option PossibleKey
  /-- The possible keys around the open flow collections, innermost first. -/
  around : List (Option PossibleKey)
  /-- The columns of the open blocks, innermost first. -/
  columns : List Nat

namespace Lexer

/-- A lexer before a text. -/
def new (s : List Placed) : Lexer :=
  ⟨s, [], true, none, [], []⟩

/-- Whether a flow collection is open. -/
def flow (l : Lexer) : Bool :=
  !l.around.isEmpty

/-- The first column that lies within the innermost block. -/
def least (l : Lexer) : Nat :=
  l.columns.head?.elim 0 (· + 1)

/-- The lexer after one more token. -/
def emit (l : Lexer) (t : Token) (rest : List Placed) : Lexer :=
  { l with tokens := t :: l.tokens, rest }

/-- A token put in after the first `position` tokens. -/
def insert (l : Lexer) (position : Nat) (t : Token) : Lexer :=
  let later := l.tokens.length - position
  { l with tokens := l.tokens.take later ++ t :: l.tokens.drop later }

/-- Gives the possible key up; `none` if a key has to stand there. -/
def dropKey? (l : Lexer) : Option Lexer :=
  if l.key.any (·.required) then none else some { l with key := none }

/-- Gives up the possible keys for which a colon at a place comes too late. -/
def dropStale? (l : Lexer) (p : Placed) : Option Lexer :=
  let fresh? (key : Option PossibleKey) : Option (Option PossibleKey) :=
    match key with
    | some k => if !k.isStale p then some key else if k.required then none else some none
    | none => some none
  return { l with key := ← fresh? l.key, around := ← l.around.mapM fresh? }

/-- Notes that the next token, at a place, may be a key. -/
def noteKey? (l : Lexer) (p : Placed) : Option Lexer :=
  if l.keyAllowed then do
    let required := !l.flow && l.columns.head? = some p.column
    return { ← l.dropKey? with key := some ⟨required, l.tokens.length, p⟩ }
  else some l

/-- Sets whether a key may start at the next token. -/
def allowKey (l : Lexer) (allowed : Bool) : Lexer :=
  { l with keyAllowed := allowed }

/-- Opens a block in a column, unless one is open there, with its token after the first `position`
tokens. There are no blocks within flow collections. -/
def openBlock (l : Lexer) (column position : Nat) (t : Token) : Lexer :=
  if l.flow || column < l.least then l
  else { l.insert position t with columns := column :: l.columns }

/-- Closes the open blocks in column `least` and beyond. -/
def closeBlocks (l : Lexer) (least : Nat) : Lexer :=
  if l.flow then l
  else
    let closed := l.columns.takeWhile (least ≤ ·)
    { l with
      columns := l.columns.drop closed.length
      tokens := List.replicate closed.length .blockEnd ++ l.tokens }

/-- Ends what is open before a directive or the boundary of a document. -/
def leave? (l : Lexer) : Option Lexer := do
  return (← (l.closeBlocks 0).dropKey?).allowKey false

/-- The text from the next token on, past blanks, comments and line breaks, and whether a key may
start there. Where a key may start in a block, a tab is no blank. A byte order mark may start a
line. -/
def content (flow : Bool) : (keyAllowed comment : Bool) → List Placed → Bool × List Placed
  | keyAllowed, _, [] => (keyAllowed, [])
  | keyAllowed, comment, p :: rest =>
    if isBreak p.char then content flow (keyAllowed || !flow) false rest
    else if comment || p.char = ' ' || (p.char = '\t' && (flow || !keyAllowed)) ||
        (p.char = '\uFEFF' && p.column = 0) then
      content flow keyAllowed comment rest
    else if p.char = '#' then content flow keyAllowed true rest
    else (keyAllowed, p :: rest)

/-- Opens a flow collection. -/
def openFlow? (l : Lexer) (p : Placed) (t : Token) (rest : List Placed) : Option Lexer := do
  let l ← l.noteKey? p
  return { l.emit t rest with keyAllowed := true, key := none, around := l.key :: l.around }

/-- Closes a flow collection. -/
def closeFlow? (l : Lexer) (t : Token) (rest : List Placed) : Option Lexer := do
  let l := (← l.dropKey?).emit t rest
  match l.around with
  | key :: around => return { l with keyAllowed := false, key, around }
  | [] => return l.allowKey false

/-- A sign that stands before an item or a key, at a place, and opens a block for it. -/
def entry? (l : Lexer) (p : Placed) (block sign : Token) (rest : List Placed) : Option Lexer := do
  if !l.flow && !l.keyAllowed then none
  else return (← (l.openBlock p.column l.tokens.length block).dropKey?).emit sign rest

/-- The colon before a value, at a place: after a possible key, or in an entry with an explicit
one. -/
def value? (l : Lexer) (p : Placed) (rest : List Placed) : Option Lexer :=
  match l.key with
  | some k =>
    let l := (l.insert k.position .key).openBlock k.start.column k.position .blockMapping
    some { l.emit .value rest with key := none, keyAllowed := false }
  | none =>
    if !l.flow && !l.keyAllowed then none
    else
      let l := l.openBlock p.column l.tokens.length .blockMapping
      some ((l.emit .value rest).allowKey !l.flow)

/-- The lexer after the token that starts with a character. -/
def token? (l : Lexer) (p : Placed) (rest : List Placed) : Option Lexer :=
  let s := p :: rest
  let entryNext := l.flow || blankNext rest
  -- A token that may be a key.
  let named (read? : Option (Token × List Placed)) : Option Lexer := do
    let (t, rest) ← read?
    return ((← l.noteKey? p).allowKey false).emit t rest
  let quoted (style : Style) : Option Lexer := named do
    let (text, rest) ← quoted? (style = .doubleQuoted) rest
    return (.scalar style (String.ofList text), rest)
  let block (style : Style) : Option Lexer := do
    let (text, rest) ← block? style l.least rest
    return ((← l.dropKey?).allowKey true).emit (.scalar style (String.ofList text)) rest
  if p.column = 0 && p.char = '%' then do
    let (t, rest) ← directive? rest
    return (← l.leave?).emit t rest
  else if boundaryNext s then do
    return (← l.leave?).emit (if p.char = '-' then .documentStart else .documentEnd) (s.drop 3)
  else if p.char = '[' then l.openFlow? p .openSequence rest
  else if p.char = '\x7b' then l.openFlow? p .openMapping rest
  else if p.char = ']' then l.closeFlow? .closeSequence rest
  else if p.char = '\x7d' then l.closeFlow? .closeMapping rest
  else if p.char = ',' then do return ((← l.dropKey?).allowKey true).emit .comma rest
  else if p.char = '-' && blankNext rest then do
    return (← l.entry? p .blockSequence .item rest).allowKey true
  else if p.char = '?' && entryNext then do
    return (← l.entry? p .blockMapping .key rest).allowKey !l.flow
  else if p.char = ':' && entryNext then l.value? p rest
  else if p.char = '*' then named ((anchorName? rest).map fun (name, rest) => (.alias name, rest))
  else if p.char = '&' then named ((anchorName? rest).map fun (name, rest) => (.anchor name, rest))
  else if p.char = '!' then named do
    let (t, rest) ← tag? rest
    if blankNext rest || (l.flow && nextIs (· = ',') rest) then some (t, rest) else none
  else if p.char = '|' && !l.flow then block .literal
  else if p.char = '>' && !l.flow then block .folded
  else if p.char = '\'' then quoted .singleQuoted
  else if p.char = '"' then quoted .doubleQuoted
  else if plainNext l.flow s then do
    let (text, broken, rest) ← plainRest? l.flow l.least .empty s
    return ((← l.noteKey? p).allowKey broken).emit (.scalar .plain (String.ofList text)) rest
  else none

/-- All tokens of a lexer. A token takes up at least one character, so one more than the length of
the text is enough fuel. -/
def run? : (fuel : Nat) → Lexer → Option (List Token)
  | 0, _ => none
  | fuel + 1, l => do
    let (keyAllowed, rest) := content l.flow l.keyAllowed false l.rest
    match rest with
    | [] => return (← l.leave?).tokens.reverse
    | p :: after =>
      let l := (← { l with keyAllowed }.dropStale? p).closeBlocks (p.column + 1)
      run? fuel (← l.token? p after)

end Lexer

/-- The tokens of a text. -/
def tokens? (text : String) : Option (List Token) := do
  let s ← place? text
  (Lexer.new s).run? (s.length + 1)

end InteropGen.Yaml

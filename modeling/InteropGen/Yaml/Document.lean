import InteropGen.Yaml.Token.Lexer

/-!
# YAML documents

A text holds one document, and a document one root node. Nodes are put together from tokens: a
collection by its start and its end, a list without a block of its own by the key before it, and a
value that is left out by what stands in its place.

Anchors are numbered when they are set, by how many names are in use. An alias keeps the number of
its anchor and stands for the node that was last given this number, which may be a node around it:
`Document.follow?` looks it up.
-/

set_option autoImplicit false

namespace InteropGen.Yaml

/-- A scalar with its tag, where one is written. -/
structure Scalar where
  text : String
  style : Style
  tag : Option String

/-- A node of a document, with the number of its anchor. -/
inductive Node where
  | scalar (anchor : Option Nat) (value : Scalar)
  | sequence (anchor : Option Nat) (items : List Node)
  | mapping (anchor : Option Nat) (entries : List (Node × Node))
  | alias (number : Nat)

namespace Node

/-- What stands for a value that is left out. -/
def absent : Node := .scalar none ⟨"", .plain, none⟩

instance : Inhabited Node := ⟨absent⟩

/-- The number of a node's anchor with the node. -/
def own (n : Node) : List (Nat × Node) :=
  match n with
  | .scalar (some k) _ | .sequence (some k) _ | .mapping (some k) _ => [(k, n)]
  | _ => []

mutual

/-- The nodes with anchors in a node, in the order in which they start. -/
def anchored : Node → List (Nat × Node)
  | .scalar anchor value => (Node.scalar anchor value).own
  | .sequence anchor items => (Node.sequence anchor items).own ++ anchoredItems items
  | .mapping anchor entries => (Node.mapping anchor entries).own ++ anchoredEntries entries
  | .alias _ => []

def anchoredItems : List Node → List (Nat × Node)
  | [] => []
  | n :: rest => n.anchored ++ anchoredItems rest

def anchoredEntries : List (Node × Node) → List (Nat × Node)
  | [] => []
  | (key, value) :: rest => key.anchored ++ value.anchored ++ anchoredEntries rest

end

end Node

/-- A document, with its nodes that have anchors, in order. -/
structure Document where
  root : Node
  anchored : List (Nat × Node)

/-- The node that an alias stands for, and every other node itself. -/
def Document.follow? (d : Document) : Node → Option Node
  | .alias k => ((d.anchored.filter (·.1 = k)).getLast?).map (·.2)
  | n => some n

/-! ## Putting nodes together -/

/-- What is left of the tokens, the numbers of the anchors that are set, and the handles of tags. -/
structure Composer where
  tokens : List Token
  anchors : List (String × Nat)
  handles : List (String × String)

/-- Reading with a composer. -/
abbrev Composing := StateT Composer Option

namespace Composing

/-- The next token. -/
def next? : Composing (Option Token) := do
  return (← get).tokens.head?

/-- Passes over one token. -/
def skip : Composing Unit :=
  modify fun c => { c with tokens := c.tokens.drop 1 }

/-- Passes over a token if it comes next. -/
def accept (t : Token) : Composing Bool := do
  if (← next?) = some t then
    skip
    return true
  else return false

/-- Passes over a token that has to come next. -/
def require (t : Token) : Composing Unit := do
  if !(← accept t) then failure

/-- Whether one of several tokens comes next. -/
def nextIn (ts : List Token) : Composing Bool := do
  return (← next?).any (· ∈ ts)

/-- Sets an anchor. -/
def setAnchor (name : String) : Composing Nat := do
  let anchors := (← get).anchors
  let number := anchors.length
  modify fun c => { c with anchors := (name, number) :: anchors.filter (·.1 ≠ name) }
  return number

/-- The tag that a handle and a suffix spell. -/
def spellTag (handle suffix : String) : Composing String := do
  if handle.isEmpty then return suffix
  else return (← (← get).handles.lookup handle) ++ suffix

/-- An anchor, if one comes next. -/
def anchor? : Composing (Option String) := do
  match ← next? with
  | some (.anchor name) =>
    skip
    return some name
  | _ => return none

/-- A tag, if one comes next. -/
def tag? : Composing (Option String) := do
  match ← next? with
  | some (.tag handle suffix) =>
    skip
    return some (← spellTag handle suffix)
  | _ => return none

/-- An anchor and a tag, in either order, each if there is one. -/
def properties : Composing (Option String × Option String) := do
  match ← anchor? with
  | some name => return (some name, ← tag?)
  | none =>
    match ← tag? with
    | some tag => return (← anchor?, some tag)
    | none => return (none, none)

mutual

/-- A node. Blocks are allowed if `block` is set, and a list without a block of its own if `keyed`
is. An anchor or a tag may stand before nothing. -/
def node (block keyed : Bool) : (fuel : Nat) → Composing Node
  | 0 => failure
  | fuel + 1 => do
    if let some (.alias name) ← next? then
      skip
      return .alias (← (← get).anchors.lookup name)
    let (name, tag) ← properties
    let anchor ← name.mapM setAnchor
    match ← next? with
    | some (.scalar style text) =>
      skip
      -- The tag `!` alone asks for what is written.
      return .scalar anchor ⟨text, style, tag.filter (· ≠ "!")⟩
    | some .openSequence =>
      skip
      return .sequence anchor (← flowItems true fuel)
    | some .openMapping =>
      skip
      return .mapping anchor (← flowEntries true fuel)
    | some .item => if keyed then return .sequence anchor (← keyedItems fuel) else bare anchor tag
    | some .blockSequence =>
      if block then
        skip
        return .sequence anchor (← blockItems fuel)
      else bare anchor tag
    | some .blockMapping =>
      if block then
        skip
        return .mapping anchor (← blockEntries fuel)
      else bare anchor tag
    | _ => bare anchor tag
where
  /-- Properties without a node. -/
  bare (anchor : Option Nat) (tag : Option String) : Composing Node :=
    if anchor.isSome || tag.isSome then return .scalar anchor ⟨"", .plain, tag⟩ else failure

/-- A node that is left out if one of several tokens comes next. -/
def nodeUnless (ends : List Token) (block keyed : Bool) : (fuel : Nat) → Composing Node
  | 0 => failure
  | fuel + 1 => do if ← nextIn ends then return .absent else node block keyed fuel

/-- The items of a block from a dash on, up to the end of the block. -/
def blockItems : (fuel : Nat) → Composing (List Node)
  | 0 => failure
  | fuel + 1 => do
    if ← accept .item then
      let item ← nodeUnless [.item, .blockEnd] true false fuel
      return item :: (← blockItems fuel)
    else if ← accept .blockEnd then return []
    else failure

/-- The items of a list that stands in the column of its key. -/
def keyedItems : (fuel : Nat) → Composing (List Node)
  | 0 => failure
  | fuel + 1 => do
    if ← accept .item then
      let item ← nodeUnless [.item, .key, .value, .blockEnd] true false fuel
      return item :: (← keyedItems fuel)
    else return []

/-- The value of an entry, if there is one. -/
def valueUnless (ends : List Token) (block : Bool) : (fuel : Nat) → Composing Node
  | 0 => failure
  | fuel + 1 => do
    if ← accept .value then nodeUnless ends block block fuel else return .absent

/-- The entries of a block from a key on, up to the end of the block. -/
def blockEntries : (fuel : Nat) → Composing (List (Node × Node))
  | 0 => failure
  | fuel + 1 => do
    if ← accept .key then
      let ends := [.key, .value, .blockEnd]
      let key ← nodeUnless ends true true fuel
      let value ← valueUnless ends true fuel
      return (key, value) :: (← blockEntries fuel)
    else if ← accept .blockEnd then return []
    else failure

/-- The items of a flow list from a comma or the first item on. An item with a key is a mapping of
one entry; where the key is left out, the token in its place is passed over. -/
def flowItems (first : Bool) : (fuel : Nat) → Composing (List Node)
  | 0 => failure
  | fuel + 1 => do
    if ← accept .closeSequence then return []
    unless first do require .comma
    if ← accept .closeSequence then return []
    let item ←
      if ← accept .key then
        let leftOut ← nextIn [.value, .comma, .closeSequence]
        let key ← if leftOut then skip; pure .absent else node false false fuel
        pure (.mapping none [(key, ← valueUnless [.comma, .closeSequence] false fuel)])
      else node false false fuel
    return item :: (← flowItems false fuel)

/-- The entries of a flow mapping from a comma or the first entry on. -/
def flowEntries (first : Bool) : (fuel : Nat) → Composing (List (Node × Node))
  | 0 => failure
  | fuel + 1 => do
    if ← accept .closeMapping then return []
    unless first do require .comma
    if ← accept .closeMapping then return []
    let ends := [.comma, .closeMapping]
    let entry ←
      if ← accept .key then
        let key ← nodeUnless (.value :: ends) false false fuel
        pure (key, ← valueUnless ends false fuel)
      else pure (← node false false fuel, .absent)
    return entry :: (← flowEntries false fuel)

end

end Composing

/-! ## Documents -/

/-- The handles of tags that every document has. -/
def standardHandles : List (String × String) :=
  [("!", "!"), ("!!", "tag:yaml.org,2002:")]

/-- The handles that the directives before a document set, and what follows the directives. A
version is given once at most, and so is what a handle stands for. -/
def directives? (versioned : Bool) (handles : List (String × String)) :
    List Token → Option (List (String × String) × List Token)
  | .version major minor :: rest =>
    if versioned || major != 1 || (minor != 1 && minor != 2) then none
    else directives? true handles rest
  | .tagHandle handle start :: rest =>
    if (handles.lookup handle).isSome then none
    else directives? versioned (handles ++ [(handle, start)]) rest
  | rest => some (handles, rest)

/-- Whether a token is no part of the content of a document. -/
def Token.isBoundary : Token → Bool
  | .version _ _ | .tagHandle _ _ | .documentStart | .documentEnd => true
  | _ => false

/-- The node that stands next, with the given handles, and what follows it. Between two tokens that
are passed over, at most three readers call one another, which bounds the fuel. -/
def content? (handles : List (String × String)) (tokens : List Token) :
    Option (Node × List Token) := do
  let (node, c) ← (Composing.node true false (4 * tokens.length + 4)).run
    ⟨tokens, [], handles ++ standardHandles⟩
  return (node, c.tokens)

/-- The root node of a document, and what follows it. The start of the document may be left out if
there are no directives. -/
def root? (tokens : List Token) : Option (Node × List Token) := do
  let (handles, rest) ← directives? false [] tokens
  match rest with
  | .documentStart :: rest =>
    if rest.head?.all Token.isBoundary then some (.absent, rest) else content? handles rest
  | rest =>
    if rest.length < tokens.length then none
    else if rest.isEmpty then some (.absent, [])
    else content? handles rest

/-- The document that a text spells. Nothing but ends of it may follow. -/
def parse? (text : String) : Option Document := do
  let (root, rest) ← root? (← tokens? text)
  if rest.all (· = .documentEnd) then some ⟨root, root.anchored⟩ else none

end InteropGen.Yaml

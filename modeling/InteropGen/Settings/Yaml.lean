import InteropGen.Settings.Json
import InteropGen.Yaml.Document

/-!
# Settings files

Settings as they are written in YAML. Texts take any scalar by its characters; truth values and
numbers have to be plain scalars of their own forms, or literal blocks with the tag of their kind;
a choice is named by a text or by a tag. A value that is left out is an empty mapping or list, and
no text where a text is optional. Aliases are followed wherever a value is read. A file is read and
then checked.
-/

set_option autoImplicit false

namespace InteropGen

namespace Yaml

namespace Scalar

/-- The tag of a kind of scalar that every document knows. -/
def coreTag (kind : String) : String :=
  "tag:yaml.org,2002:" ++ kind

/-- The text of a scalar that may be of a kind: a plain one, or a literal block with its tag. -/
def textAs? (kind : String) (s : Scalar) : Option String :=
  if s.style = .plain || (s.style = .literal && s.tag = some (coreTag kind)) then some s.text
  else none

/-- A scalar that is left out, or has only a tag. -/
def isBare (s : Scalar) : Bool :=
  s.style = .plain && s.text.isEmpty

/-- The spellings of null. -/
def spellsNull (s : Scalar) : Bool :=
  s.text ∈ ["~", "null", "Null", "NULL"]

/-- A truth value: one of the six spellings. -/
def bool? (s : Scalar) : Option Bool := do
  let text ← s.textAs? "bool"
  if text ∈ ["true", "True", "TRUE"] then some true
  else if text ∈ ["false", "False", "FALSE"] then some false
  else none

/-- The digit that a character is in a base up to sixteen. -/
def digit? (base : Nat) (c : Char) : Option Nat := do
  let d ← Json.hexValue? c
  if d < base then some d else none

/-- The number that digits spell in a base, at least one digit. -/
def digits? (base : Nat) (digits : List Char) : Option Nat := do
  if digits.isEmpty then none
  else return (← digits.mapM (digit? base)).foldl (fun n d => base * n + d) 0

/-- A number without a sign or with a plus: in decimal without leading zeros, or in base sixteen,
eight or two after `0x`, `0o` or `0b`. -/
def numeral? (s : List Char) : Option Nat :=
  let s := if s.head? = some '+' then s.drop 1 else s
  match s with
  | '0' :: 'x' :: rest => digits? 16 rest
  | '0' :: 'o' :: rest => digits? 8 rest
  | '0' :: 'b' :: rest => digits? 2 rest
  | '0' :: _ :: _ => none
  | s => digits? 10 s

/-- A number of at most 64 bits. -/
def natural? (s : Scalar) : Option Nat := do
  let value ← numeral? (← s.textAs? "int").toList
  if value < 2 ^ 64 then some value else none

/-- An optional text: a plain scalar that is left out or spells null stands for none. The tag of
null admits nothing but null, and any other tag makes a text. -/
def nullableText? (s : Scalar) : Option (Option String) :=
  if s.style != .plain then some (some s.text)
  else
    match s.tag with
    | none => some (if s.isBare || s.spellsNull then none else some s.text)
    | some tag =>
      if tag = coreTag "null" then if s.spellsNull then some none else none
      else some (some s.text)

/-- The name of a choice: its tag without the exclamation mark before it, with nothing or null
behind, or else its text. -/
def choiceName? (s : Scalar) : Option String :=
  match s.tag with
  | some tag =>
    if s.isBare || (s.style = .plain && s.spellsNull) then
      some (if tag.toList.head? = some '!' then String.ofList (tag.toList.drop 1) else tag)
    else none
  | none => some s.text

end Scalar

namespace Document

/-- The scalar that a node is. -/
def scalar? (d : Document) (n : Node) : Option Scalar := do
  match ← d.follow? n with
  | .scalar _ s => some s
  | _ => none

/-- The text of a scalar. -/
def text? (d : Document) (n : Node) : Option String :=
  (d.scalar? n).map (·.text)

/-- The items of a list; a value that is left out has none. -/
def items? (d : Document) (n : Node) : Option (List Node) := do
  match ← d.follow? n with
  | .sequence _ items => some items
  | .scalar _ s => if s.isBare then some [] else none
  | _ => none

/-- The entries of a mapping whose keys are scalars; a value that is left out has none. -/
def entries? (d : Document) (n : Node) : Option (List (String × Node)) := do
  match ← d.follow? n with
  | .mapping _ entries => entries.mapM fun (key, value) => return (← d.text? key, value)
  | .scalar _ s => if s.isBare then some [] else none
  | _ => none

/-- The entry of a key that must not be repeated: `some none` if it is absent. -/
def unique? (entries : List (String × Node)) (key : String) : Option (Option Node) :=
  match (entries.filter (·.1 = key)).map (·.2) with
  | [] => some none
  | [n] => some (some n)
  | _ => none

/-- The values of the given keys, of which none may be repeated; other keys do not matter. -/
def record? (d : Document) (keys : List String) (n : Node) : Option (List (Option Node)) := do
  let entries ← d.entries? n
  keys.mapM (unique? entries)

/-- The template files of a category. -/
def sides? (d : Document) (n : Node) : Option (Sides (Option String)) := do
  let file? (n : Node) : Option (Option String) := (d.scalar? n).bind Scalar.nullableText?
  match ← d.record? ["values", "transfers"] n with
  | [values, transfers] =>
    return ⟨← optional? none file? values, ← optional? none file? transfers⟩
  | _ => none

/-- The template files of every category; of one category the last entry counts. -/
def catalog? (d : Document) (n : Node) : Option (Catalog (Sides (Option String))) := do
  let entries ← d.entries? n
  return Catalog.ofList (← entries.mapM fun (name, n) => return (name, ← d.sides? n))

/-- A choice that is known by its name. -/
def choice? {α : Type} (d : Document) (ofName? : String → Option α) (n : Node) : Option α := do
  ofName? (← (← d.scalar? n).choiceName?)

end Document

end Yaml

namespace Settings

open Yaml

/-- Reads settings from a document. -/
def ofDocument? (d : Document) : Option Settings := do
  match ← d.record? keys d.root with
  | [platform, targets, wireCodec, indentWidth, transferSuffix, sequenceSuffix, counterStem,
      templates] =>
    return {
      platform := ← optional? default.platform (d.choice? Platform.ofName?) platform
      targets := ← optional? default.targets
        (fun n => do (← d.items? n).mapM (d.choice? Layout.ofName?)) targets
      wireCodec := ← optional? default.wireCodec (fun n => (d.scalar? n).bind Scalar.bool?)
        wireCodec
      indentWidth := ← optional? default.indentWidth (fun n => (d.scalar? n).bind Scalar.natural?)
        indentWidth
      transferSuffix := ← optional? default.transferSuffix d.text? transferSuffix
      sequenceSuffix := ← optional? default.sequenceSuffix d.text? sequenceSuffix
      counterStem := ← optional? default.counterStem d.text? counterStem
      templates := ← optional? default.templates d.catalog? templates }
  | _ => none

/-- Why a settings text is refused. -/
inductive TextError where
  /-- It is no YAML, or its values have the wrong form. -/
  | malformed
  /-- It breaks a rule on settings. -/
  | invalid (error : SettingsError)

/-- Reads settings from the text of a file and checks them. -/
def ofYaml (text : String) : Except TextError Settings :=
  match (Yaml.parse? text).bind ofDocument? with
  | none => .error .malformed
  | some s =>
    match s.check with
    | .ok _ => .ok s
    | .error e => .error (.invalid e)

end Settings

end InteropGen

import InteropGen.Json.Basic
import InteropGen.Settings.Basic

/-!
# Settings in JSON

How settings are read from a JSON object, every member optional, and written to one that names
them all. Reading does not check the rules on settings.
-/

set_option autoImplicit false

namespace InteropGen

/-- The names of the settings in files, in order. -/
def Settings.keys : List String :=
  ["platform", "targets", "wire_codec", "indent_width", "transfer_suffix", "sequence_suffix",
    "loop_index_prefix", "templates"]

/-- Reads a part that may be left out. -/
def optional? {α β : Type} (fallback : β) (read : α → Option β) : Option α → Option β
  | none => some fallback
  | some a => read a

/-- A choice without content that is known by its name. -/
def Json.unit? {α : Type} (ofName? : String → Option α) (j : Json) : Option α :=
  match j.variant? with
  | some (tag, none) | some (tag, some .null) => ofName? tag
  | _ => none

/-- A string; null stands for none. -/
def Json.nullableString? : Json → Option (Option String)
  | .null => some none
  | .string s => some (some s)
  | _ => none

/-- The two optional texts of a category. -/
def Json.sides? (j : Json) : Option (Sides (Option String)) :=
  match j.record? ["values", "transfers"] with
  | some [values, transfers] => do
    return ⟨← optional? none Json.nullableString? values,
      ← optional? none Json.nullableString? transfers⟩
  | _ => none

/-- Two optional texts for every category. -/
def Json.catalog? : Json → Option (Catalog (Sides (Option String)))
  | .object members => do
    return Catalog.ofList (← members.mapM fun (name, j) => return (name, ← j.sides?))
  | _ => none

namespace Settings

def decode? (j : Json) : Option Settings :=
  match j.record? keys with
  | some [platform, targets, wireCodec, indentWidth, transferSuffix, sequenceSuffix, counterStem,
      templates] => do
    return {
      platform := ← optional? default.platform (Json.unit? Platform.ofName?) platform
      targets := ← optional? default.targets (Json.list? (Json.unit? Layout.ofName?)) targets
      wireCodec := ← optional? default.wireCodec Json.bool? wireCodec
      indentWidth := ← optional? default.indentWidth (Json.natural? 64) indentWidth
      transferSuffix := ← optional? default.transferSuffix Json.string? transferSuffix
      sequenceSuffix := ← optional? default.sequenceSuffix Json.string? sequenceSuffix
      counterStem := ← optional? default.counterStem Json.string? counterStem
      templates := ← optional? default.templates Json.catalog? templates }
  | _ => none

/-- The template files of a category. -/
def encodeSides (s : Sides (Option String)) : Json :=
  .object [("values", .ofString? s.values), ("transfers", .ofString? s.transfers)]

def encode (s : Settings) : Json :=
  .object
    [("platform", .string s.platform.name),
      ("targets", .array (s.targets.map fun l => .string l.name)),
      ("wire_codec", .bool s.wireCodec),
      ("indent_width", .ofNat s.indentWidth),
      ("transfer_suffix", .string s.transferSuffix),
      ("sequence_suffix", .string s.sequenceSuffix),
      ("loop_index_prefix", .string s.counterStem),
      ("templates", .object (s.templates.entries.map fun (name, t) => (name, encodeSides t)))]

end Settings

end InteropGen

import InteropGen.Catalog
import InteropGen.Target.Basic
import InteropGen.Text.Quoted

/-!
# Settings

What a run of the generator is configured with, the default of every setting, and the rules that
settings have to meet before they are used.
-/

set_option autoImplicit false

namespace InteropGen

/-- The configuration of the generator. -/
structure Settings where
  platform : Platform
  /-- The layouts that code is generated for. -/
  targets : List Layout
  /-- Whether distinguished structs get a wire codec. -/
  wireCodec : Bool
  /-- Spaces per indentation level. -/
  indentWidth : Nat
  /-- What turns the name of a value type into that of its transfer type. -/
  transferSuffix : String
  /-- The suffix of sequence types in templates. -/
  sequenceSuffix : String
  /-- What loop counters are called, before their numbers. -/
  counterStem : String
  /-- The template files of every category. -/
  templates : Catalog (Sides (Option String))
  deriving DecidableEq

/-- The default of every setting. -/
def Settings.default : Settings where
  platform := .linux
  targets := Layout.all
  wireCodec := true
  indentWidth := 4
  transferSuffix := "Wrapper"
  sequenceSuffix := "Seq"
  counterStem := "i"
  templates := .empty

instance : Inhabited Settings := ⟨Settings.default⟩

/-- The rule that settings break. -/
inductive SettingsError where
  | noTargets
  | repeatedTarget (layout : Layout)
  | zeroIndent
  | emptyTransferSuffix
  | counterStem (stem : String)
  deriving DecidableEq, Repr

/-- The wording of a broken rule. -/
def SettingsError.message : SettingsError → String
  | noTargets => "Invalid configuration: No target layouts configured"
  | repeatedTarget layout =>
    "Invalid configuration: Target layout " ++ layout.name ++ " listed more than once"
  | zeroIndent => "Invalid configuration: indent_width must be positive"
  | emptyTransferSuffix => "Invalid configuration: transfer_suffix must not be empty"
  | counterStem stem =>
    "Invalid configuration: loop_index_prefix " ++ Text.shown stem ++ " is not an identifier"

/-- The first layout that is listed before already. -/
def firstRepeated (seen : List Layout) : List Layout → Option Layout
  | [] => none
  | l :: rest => if l ∈ seen then some l else firstRepeated (l :: seen) rest

/-- A letter or underscore, then letters, digits and underscores, all of ASCII. -/
def isIdentifier (text : String) : Bool :=
  match text.toList with
  | [] => false
  | c :: rest => (c.isAlpha || c = '_') && rest.all fun c => c.isAlphanum || c = '_'

/-- The first rule that settings break, in the order of the settings. -/
def Settings.check (s : Settings) : Except SettingsError Unit :=
  if s.targets = [] then .error .noTargets
  else
    match firstRepeated [] s.targets with
    | some layout => .error (.repeatedTarget layout)
    | none =>
      if s.indentWidth = 0 then .error .zeroIndent
      else if s.transferSuffix = "" then .error .emptyTransferSuffix
      else if isIdentifier s.counterStem then .ok ()
      else .error (.counterStem s.counterStem)

end InteropGen

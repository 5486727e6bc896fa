import InteropGen.FileTree
import InteropGen.Generator.Basic
import InteropGen.Settings.Yaml
import InteropGen.TypeGraph.Json

/-!
# The command line

The two commands of the program: `generate` writes the documents of every configured layout, and
`check` only reports. Options are read first; then the settings, the templates and the type graph
are loaded, in that order; then everything is generated in memory before the first file is written.

The commands run over any `FileSystem`.
-/

set_option autoImplicit false

namespace InteropGen.CommandLine

/-- The options of a command. -/
inductive Flag where
  | types | config | platform | targets | out | logLevel
  deriving DecidableEq, Repr

/-- The option of a name after two dashes. -/
def Flag.ofName? : String → Option Flag
  | "types" => some .types
  | "config" => some .config
  | "platform" => some .platform
  | "targets" => some .targets
  | "out" => some .out
  | "log-level" => some .logLevel
  | _ => none

/-- The option of a letter after one dash. -/
def Flag.ofLetter? : Char → Option Flag
  | 't' => some .types
  | 'c' => some .config
  | 'o' => some .out
  | _ => none

/-- The options that have been given. -/
structure Given where
  types : Option String := none
  config : Option String := none
  platform : Option Platform := none
  targets : Option (List Layout) := none
  out : Option String := none
  logLevel : Option String := none
  deriving DecidableEq, Repr

/-- The layouts in a list with commas. -/
def layouts? (text : String) : Option (List Layout) :=
  (Text.pieces ',' text.toList).mapM fun piece => Layout.ofName? (String.ofList piece)

/-- The first value of an option that may be given once. -/
def once {α : Type} (known : Option α) (value : Option α) : Option (Option α) :=
  match known, value with
  | none, some a => some (some a)
  | _, _ => none

/-- A path, which is never empty. -/
def path? (text : String) : Option String :=
  if text = "" then none else some text

/-- One more option; `none` if it is repeated or its value is not one of the option. The layouts
of several `--targets` add up. -/
def Given.set (g : Given) (flag : Flag) (value : String) : Option Given := do
  match flag with
  | .types => return { g with types := ← once g.types (path? value) }
  | .config => return { g with config := ← once g.config (path? value) }
  | .platform => return { g with platform := ← once g.platform (Platform.ofName? value) }
  | .targets => return { g with targets := some (g.targets.getD [] ++ (← layouts? value)) }
  | .out => return { g with out := ← once g.out (path? value) }
  | .logLevel => return { g with logLevel := ← once g.logLevel (some value) }

/-- What an argument is. -/
inductive Argument where
  /-- An option, with its value if the argument holds it. -/
  | flag (flag : Flag) (value : Option String)
  /-- The end of the options, `--`. -/
  | endOfOptions
  | word (text : String)
  | unknown
  deriving DecidableEq, Repr

/-- A text before and after its first equals sign. -/
def cutAtEquals (text : List Char) : List Char × Option (List Char) :=
  match text.dropWhile (· ≠ '=') with
  | [] => (text, none)
  | _ :: value => (text.takeWhile (· ≠ '='), some value)

/-- Classifies an argument among the options that `allowed` admits. -/
def Argument.of (allowed : Flag → Bool) (text : String) : Argument :=
  match text.toList with
  | ['-', '-'] => .endOfOptions
  | '-' :: '-' :: long =>
    let (name, value) := cutAtEquals long
    match Flag.ofName? (String.ofList name) with
    | some f => if allowed f then .flag f (value.map String.ofList) else .unknown
    | none => .unknown
  | '-' :: letter :: rest =>
    match Flag.ofLetter? letter with
    | some f =>
      if allowed f then
        match rest with
        | [] => .flag f none
        | '=' :: value => .flag f (some (String.ofList value))
        | value => .flag f (some (String.ofList value))
      else .unknown
    | none => .unknown
  | _ => .word text

/-- Whether an argument can be the value of the option before it: it does not start like an
option. -/
def isValue (text : String) : Bool :=
  match text.toList with
  | '-' :: _ :: _ => false
  | _ => true

/-- Reads the options of a command. -/
def readFlags (allowed : Flag → Bool) (g : Given) : List String → Option Given
  | [] => some g
  | [last] =>
    match Argument.of allowed last with
    | .flag f (some value) => g.set f value
    | .endOfOptions => some g
    | _ => none
  | arg :: next :: rest =>
    match Argument.of allowed arg with
    | .flag f (some value) => (g.set f value).bind (readFlags allowed · (next :: rest))
    | .flag f none =>
      if isValue next then (g.set f next).bind (readFlags allowed · rest) else none
    | _ => none

/-- What a command works on. -/
structure Inputs where
  types : String
  config : Option String
  platform : Option Platform
  targets : Option (List Layout)
  deriving DecidableEq, Repr

/-- The commands. -/
inductive Command where
  | generate (inputs : Inputs) (out : String)
  | check (inputs : Inputs)
  | version
  deriving DecidableEq, Repr

/-- The inputs that options give; the type graph is required. -/
def Given.inputs? (g : Given) : Option Inputs := do
  return { types := ← g.types, config := g.config, platform := g.platform, targets := g.targets }

/-- The directory that documents are written to if no other is given. -/
def defaultOut : String := "generated"

/-- The command `generate` with its options. -/
def generate? (args : List String) : Option Command := do
  let g ← readFlags (fun _ => true) {} args
  return .generate (← g.inputs?) (g.out.getD defaultOut)

/-- The command `check` with its options. -/
def check? (args : List String) : Option Command := do
  let g ← readFlags (· ≠ .out) {} args
  return .check (← g.inputs?)

/-- Whether an argument asks for the version. -/
def asksVersion (arg : String) : Bool :=
  arg = "--version" || arg.startsWith "-V"

/-- Reads the arguments of the program; `none` if they are not used correctly. The log level, which
changes no result, may stand before the command too. -/
def readCommand (g : Given) : List String → Option Command
  | [] => none
  | [arg] =>
    if asksVersion arg then some .version
    else if arg = "generate" then generate? []
    else if arg = "check" then check? []
    else none
  | arg :: next :: rest =>
    if asksVersion arg then some .version
    else if arg = "generate" then generate? (next :: rest)
    else if arg = "check" then check? (next :: rest)
    else
      match Argument.of (· = .logLevel) arg with
      | .flag f (some value) => (g.set f value).bind (readCommand · (next :: rest))
      | .flag f none =>
        if isValue next then (g.set f next).bind (readCommand · rest) else none
      | _ => none

/-- Why a settings file cannot be used. -/
inductive ConfigError where
  | file (error : FileError)
  | malformed
  | invalid (error : SettingsError)
  deriving DecidableEq, Repr

/-- The wording, each cause after a colon. -/
def ConfigError.message : ConfigError → String
  | file error => "I/O error: " ++ error.message ++ ": " ++ error.message
  | malformed => "YAML parse error"
  | invalid error => error.message

/-- Why a command stops. -/
inductive RunError where
  | config (path : String) (error : ConfigError)
  | settings (error : SettingsError)
  | templates (error : FileError)
  | readTypes (path : String) (error : FileError)
  | parseTypes (path : String)
  | createDir (path : String) (error : FileError)
  | writeFile (path : String) (error : FileError)
  deriving DecidableEq, Repr

/-- The wording, each cause after a colon. -/
def RunError.message : RunError → String
  | config path error => "Failed to load config " ++ path ++ ": " ++ error.message
  | settings error => "Invalid generator configuration: " ++ error.message
  | templates error => "Failed to load templates: " ++ (ConfigError.file error).message
  | readTypes path error => "Failed to read " ++ path ++ ": " ++ error.message
  | parseTypes path => "Failed to parse type graph " ++ path
  | createDir path error => "Failed to create " ++ path ++ ": " ++ error.message
  | writeFile path error => "Failed to write " ++ path ++ ": " ++ error.message

section Run

variable {m : Type → Type} [Monad m] (fs : FileSystem m)

/-- The result of a file operation, with an error of its own on failure. -/
def attempt {α ε : Type} (wrap : FileError → ε) (operation : m (Except FileError α)) :
    ExceptT ε m α :=
  ExceptT.mk do return (← operation).mapError wrap

/-- Reads and checks a settings file. -/
def loadSettings (path : String) : ExceptT ConfigError m Settings := do
  let text ← attempt .file (fs.read path)
  match Settings.ofYaml text with
  | .ok s => return s
  | .error .malformed => throw .malformed
  | .error (.invalid e) => throw (.invalid e)

/-- Reads an optional template file relative to a directory. -/
def loadTemplate (base : String) (path : Option String) :
    ExceptT FileError m (Option String) := do
  match path with
  | none => return none
  | some path => return some (← attempt id (fs.read (joinPath base path)))

/-- Reads the template files of every category, in order. -/
def loadTemplates (base : String) (files : Catalog (Sides (Option String))) :
    ExceptT FileError m Templates := do
  let entries ← files.entries.mapM fun (category, paths) => do
    let values ← loadTemplate fs base paths.values
    let transfers ← loadTemplate fs base paths.transfers
    return (category, Sides.mk values transfers)
  return Catalog.ofList entries

/-- The settings of a run, with the overrides of the command line, and the directory that its
template files are relative to. -/
def runSettings (inputs : Inputs) : ExceptT RunError m (Settings × String) := do
  let (settings, base) ←
    match inputs.config with
    | none => pure (Settings.default, "")
    | some path =>
      let settings ← (loadSettings fs path).adapt (RunError.config path)
      pure (settings, parentPath path)
  let settings := { settings with
    platform := inputs.platform.getD settings.platform
    targets := inputs.targets.getD settings.targets }
  match settings.check with
  | .ok _ => return (settings, base)
  | .error e => throw (.settings e)

/-- Reads a type graph; its decimals are rounded the quick way. -/
def loadTypes (path : String) : ExceptT RunError m (List Declaration) := do
  let text ← attempt (.readTypes path) (fs.read path)
  match Declaration.parseList? .stepwise text with
  | some declarations => return declarations
  | none => throw (.parseTypes path)

/-- Generates everything in memory. -/
def generateInputs (inputs : Inputs) : ExceptT RunError m Report := do
  let (settings, base) ← runSettings fs inputs
  let templates ← (loadTemplates fs base settings.templates).adapt RunError.templates
  let declarations ← loadTypes fs inputs.types
  return (Generator.mk settings templates).generateAll declarations

/-- Writes the two documents of a layout. -/
def writeDocuments (out : String) (layout : Layout) (buffers : Sides String) :
    ExceptT RunError m Unit := do
  let dir := joinPath out layout.name
  attempt (.createDir dir) (fs.createDirs dir)
  let texts := documents buffers
  let valuesFile := joinPath dir "Values.cs"
  attempt (.writeFile valuesFile) (fs.write valuesFile texts.values)
  let transfersFile := joinPath dir "Transfers.cs"
  attempt (.writeFile transfersFile) (fs.write transfersFile texts.transfers)

/-- Runs a command that works on inputs. -/
def runInputs (inputs : Inputs) (out : Option String) : ExceptT RunError m Report := do
  let report ← generateInputs fs inputs
  match out with
  | none => return report
  | some out =>
    report.output.targets.toList.forM fun (layout, buffers) =>
      writeDocuments fs out layout buffers
    return report

/-- How a run of the program ends. -/
structure Outcome where
  exitCode : Nat
  stdout : String
  /-- The message of the error that stopped it. -/
  error : Option String
  deriving DecidableEq, Repr

/-- The outcome of a command: zero if every declaration was generated, one otherwise. -/
def Outcome.ofReport : Except RunError Report → Outcome
  | .ok report => ⟨if report.isSuccess then 0 else 1, report.summary ++ "\n", none⟩
  | .error e => ⟨1, "", some e.message⟩

/-- What the program prints when asked for its version. -/
def versionText : String := "hdds-marshal-gen 1.0.10\n"

/-- Runs the program on its arguments. -/
def run (args : List String) : m Outcome := do
  match readCommand {} args with
  | none => return ⟨2, "", none⟩
  | some .version => return ⟨0, versionText, none⟩
  | some (.generate inputs out) => return .ofReport (← (runInputs fs inputs (some out)).run)
  | some (.check inputs) => return .ofReport (← (runInputs fs inputs none).run)

end Run

end InteropGen.CommandLine

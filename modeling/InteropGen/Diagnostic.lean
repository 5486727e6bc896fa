import InteropGen.Target.Basic

/-!
# Errors and diagnostics

`GenError` lists why a declaration is rejected, `Diagnostic` what is reported beside generated
code. Each has one function that gives its wording.
-/

set_option autoImplicit false

namespace InteropGen

/-- Where in a declaration a rule was broken. -/
structure Site where
  /-- The qualified name of the declaration. -/
  declaration : String
  /-- The field as it is declared. -/
  field : String
  deriving DecidableEq, Repr

/-- The two kinds of collection. -/
inductive Container where
  | array | sequence
  deriving DecidableEq, Repr

def Container.name : Container → String
  | .array => "array"
  | .sequence => "sequence"

/-- Why a declaration is rejected. -/
inductive GenError where
  /-- The declaration is, or reaches, the tagged union `construct`. -/
  | unsupportedUnion (declaration construct : String)
  /-- The wire codec has no encoding for an aggregate inside a message. -/
  | nestedAggregate (site : Site) (element : String)
  /-- The layout cannot marshal a sequence of enums. -/
  | enumSequence (site : Site) (element : String) (layout : Layout)
  /-- A collection inside a collection. -/
  | unsupportedElement (site : Site) (element : String) (container : Container)
  /-- No dimension, a zero dimension, or too many elements. -/
  | invalidDimensions (site : Site) (dims : List Nat)
  /-- A constant whose value its type does not have. -/
  | invalidConstant (declaration type value : String)
  deriving DecidableEq, Repr

namespace GenError

/-- The qualified name of the rejected declaration. -/
def declaration : GenError → String
  | unsupportedUnion declaration _ => declaration
  | nestedAggregate site _ => site.declaration
  | enumSequence site _ _ => site.declaration
  | unsupportedElement site _ _ => site.declaration
  | invalidDimensions site _ => site.declaration
  | invalidConstant declaration _ _ => declaration

/-- Dimensions in brackets, `[2, 0]`. -/
def dimsText (dims : List Nat) : String :=
  "[" ++ ", ".intercalate (dims.map toString) ++ "]"

/-- `D.f`, the place that an error or diagnostic is about. -/
def siteText (site : Site) : String :=
  site.declaration ++ "." ++ site.field

/-- The wording of an error. -/
def message : GenError → String
  | unsupportedUnion declaration construct =>
    declaration ++ ": tagged union `" ++ construct ++ "` is not supported"
  | nestedAggregate site element =>
    siteText site ++ ": wire codec has no encoding for nested " ++ element
  | enumSequence site element layout =>
    siteText site ++ ": " ++ layout.name ++ " layout cannot marshal a sequence of " ++ element
  | unsupportedElement site element container =>
    siteText site ++ ": " ++ element ++ " is not supported as " ++ container.name ++ " element"
  | invalidDimensions site dims =>
    siteText site ++ ": array dimensions " ++ dimsText dims ++
      " must be positive with an element count below 2^31"
  | invalidConstant declaration type value =>
    declaration ++ ": constant value " ++ value ++ " is not valid for type " ++ type

end GenError

/-- What is reported about a declaration that is generated all the same. -/
inductive Diagnostic where
  /-- A `long double` crosses the native boundary as a `double`. -/
  | extendedPrecisionLoss (site : Site)
  deriving DecidableEq, Repr

/-- The wording of a diagnostic. -/
def Diagnostic.message : Diagnostic → String
  | extendedPrecisionLoss site =>
    GenError.siteText site ++ ": long double is narrowed to double at the native boundary"

end InteropGen

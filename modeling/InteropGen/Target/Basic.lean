/-!
# Targets

The two choices that code generation is run for: how the managed side lays out arrays of several
dimensions, and which platform the native side is compiled for.
-/

set_option autoImplicit false

namespace InteropGen

/-- The managed representation of an array of several dimensions. -/
inductive Layout where
  /-- One block with the rank in its type, `T[,]`. -/
  | rectangular
  /-- Arrays of arrays, `T[][]`, each row allocated on its own. -/
  | jagged
  deriving DecidableEq, Repr

namespace Layout

/-- Both layouts, in the order of output. -/
def all : List Layout := [rectangular, jagged]

def name : Layout → String
  | rectangular => "rectangular"
  | jagged => "jagged"

def ofName? (name : String) : Option Layout :=
  all.find? (·.name = name)

/-- The native sequence bridge of the rectangular layout has no enum elements. -/
def supportsEnumSequences : Layout → Bool
  | rectangular => false
  | jagged => true

end Layout

/-- The platform of the native side. -/
inductive Platform where
  /-- Wide characters are two bytes. -/
  | windows
  /-- Wide characters are four bytes. -/
  | linux
  deriving DecidableEq, Repr

namespace Platform

def all : List Platform := [windows, linux]

def name : Platform → String
  | windows => "windows"
  | linux => "linux"

def ofName? (name : String) : Option Platform :=
  all.find? (·.name = name)

/-- The size of a wide character in bytes. -/
def wcharWidth : Platform → Nat
  | windows => 2
  | linux => 4

end Platform

/-- What code is generated for: a layout, a platform, and the suffix that turns the name of a value
type into the name of its transfer type. -/
structure Target where
  layout : Layout
  platform : Platform
  transferSuffix : String
  deriving DecidableEq, Repr

end InteropGen

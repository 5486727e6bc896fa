import InteropGen.CommandLine

/-!
# The program

The command line on the files of the machine: what `CommandLine.run` prints and the status it ends
with.
-/

set_option autoImplicit false

namespace InteropGen

/-- Whether an error code is a number of the system, which some operations negate. -/
def isErrorNumber (code number : UInt32) : Bool :=
  code = number || code = 0 - number

/-- The file error behind an error of the system. -/
def FileError.ofIO : IO.Error → FileError
  | .noFileOrDirectory .. | .noSuchThing .. => .notFound
  | .alreadyExists .. => .alreadyExists
  | .inappropriateType _ code _ =>
    if isErrorNumber code 21 then .isDirectory else .notDirectory
  | e@(.invalidArgument _ code _) =>
    if isErrorNumber code 36 then .nameTooLong else .other (toString e)
  | e => .other (toString e)

/-- The result of an operation on the file of a path, its error as a value. -/
def guardPath {α : Type} (path : String) (operation : IO α) : IO (Except FileError α) := do
  if path.toList.contains '\x00' then return .error .nulInName
  match ← operation.toBaseIO with
  | .ok a => return .ok a
  | .error e => return .error (FileError.ofIO e)

/-- The files of the machine. -/
def machineFiles : FileSystem IO where
  read path := guardPath path (IO.FS.readFile path)
  createDir path := guardPath path (IO.FS.createDir path)
  isDir path := do
    match ← guardPath path (IO.FS.realPath path) with
    | .ok real => real.isDir
    | .error _ => return false
  write path text := guardPath path (IO.FS.writeFile path text)

end InteropGen

/-- Runs the program. -/
def main (args : List String) : IO UInt32 := do
  let outcome ← InteropGen.CommandLine.run InteropGen.machineFiles args
  IO.print outcome.stdout
  match outcome.error with
  | some message => IO.eprintln ("[ERROR] " ++ message)
  | none => pure ()
  return UInt32.ofNat outcome.exitCode

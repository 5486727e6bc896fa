import InteropGen.Text.Pieces

/-!
# Files

What the program does with files, and a tree of text files in memory that it can do it with. Paths
are read as on Linux: from a working directory, with `.` and `..`, and through directories only.
-/

set_option autoImplicit false

namespace InteropGen

/-- Why a file operation fails. -/
inductive FileError where
  | notFound
  | alreadyExists
  | notDirectory
  | isDirectory
  | nameTooLong
  | nulInName
  | other (text : String)
  deriving DecidableEq, Repr

/-- The wording, that of the operating system where it has seen the path. -/
def FileError.message : FileError → String
  | notFound => "No such file or directory (os error 2)"
  | alreadyExists => "File exists (os error 17)"
  | notDirectory => "Not a directory (os error 20)"
  | isDirectory => "Is a directory (os error 21)"
  | nameTooLong => "File name too long (os error 36)"
  | nulInName => "file name contained an unexpected NUL byte"
  | other text => text

/-- The file operations of the program, in whatever monad they run. -/
structure FileSystem (m : Type → Type) where
  /-- The text of a file. -/
  read : String → m (Except FileError String)
  /-- Makes one directory, whose own directory has to exist. -/
  createDir : String → m (Except FileError Unit)
  isDir : String → m Bool
  /-- Writes a file anew. -/
  write : String → String → m (Except FileError Unit)

/-- The components of a path, empty ones left out. -/
def pathParts (path : String) : List String :=
  ((Text.pieces '/' path.toList).filter (· ≠ [])).map String.ofList

/-- The path with the given components, which are listed in reverse. -/
def pathOfReversed (absolute : Bool) (parts : List String) : String :=
  (if absolute then "/" else "") ++ "/".intercalate parts.reverse

namespace FileSystem

variable {m : Type → Type} [Monad m] (fs : FileSystem m)

/-- Makes a directory; one that is there already is left as it is. -/
def createDirOnce (path : String) : m (Except FileError Unit) := do
  match ← fs.createDir path with
  | .ok _ => return .ok ()
  | .error e => return if ← fs.isDir path then .ok () else .error e

/-- Makes the directory with the components `parts`, given in reverse. Those around it are made
first if they are missing. -/
def createDirsFrom (absolute : Bool) : (parts : List String) → m (Except FileError Unit)
  | [] => return .ok ()
  | name :: outer => do
    let path := pathOfReversed absolute (name :: outer)
    match ← fs.createDir path with
    | .ok _ => return .ok ()
    | .error .notFound =>
      match ← createDirsFrom absolute outer with
      | .ok _ => fs.createDirOnce path
      | .error e => return .error e
    | .error e => return if ← fs.isDir path then .ok () else .error e

/-- Makes a directory and those around it, as far as they are missing. -/
def createDirs (path : String) : m (Except FileError Unit) :=
  fs.createDirsFrom (path.startsWith "/") (pathParts path).reverse

end FileSystem

/-- A path followed by another one; an absolute path stands alone. -/
def joinPath (base path : String) : String :=
  if path.startsWith "/" || base = "" then path
  else if base.endsWith "/" then base ++ path
  else base ++ "/" ++ path

/-- The directory part of the path of a file, empty for a bare name. -/
def parentPath (path : String) : String :=
  let front := path.toList.reverse.dropWhile (· ≠ '/')
  let trimmed := front.dropWhile (· = '/')
  if trimmed.isEmpty && !front.isEmpty then "/" else String.ofList trimmed.reverse

/-- Text files and directories under absolute paths, which are lists of names. A file's directories
exist without being listed. -/
structure FileTree where
  workingDir : List String
  files : List (List String × String)
  dirs : List (List String)

namespace FileTree

/-- The tree with files under paths relative to the working directory. -/
def ofFiles (workingDir : List String) (files : List (String × String)) : FileTree where
  workingDir := workingDir
  files := files.map fun (path, text) => (workingDir ++ pathParts path, text)
  dirs := []

/-- What a path leads to. -/
inductive Entry where
  | file (text : String)
  | dir
  | missing
  deriving DecidableEq

/-- The entry under an absolute path. -/
def entry (t : FileTree) (path : List String) : Entry :=
  match t.files.lookup path with
  | some text => .file text
  | none =>
    if path.isPrefixOf t.workingDir || t.files.any (fun f => path.isPrefixOf f.1) ||
        t.dirs.any (path.isPrefixOf ·) then .dir
    else .missing

/-- How many bytes a component of a path may have. -/
def longestName : Nat := 255

/-- How many bytes a path may have. -/
def longestPath : Nat := 4095

/-- Where a path leads from a directory: to the absolute path of its last component, which need
not exist. Everything before it has to be a directory, and the last component too if a slash
follows it (`closed`). -/
def walk (t : FileTree) (closed : Bool) (dir : List String) : List String →
    Except FileError (List String)
  | [] => .ok dir
  | "." :: rest => walk t closed dir rest
  | ".." :: rest => walk t closed dir.dropLast rest
  | name :: rest =>
    let path := dir ++ [name]
    if longestName < name.utf8ByteSize then .error .nameTooLong
    else if rest.isEmpty && !closed then .ok path
    else
      match t.entry path with
      | .dir => walk t closed path rest
      | .file _ => .error .notDirectory
      | .missing => .error .notFound

/-- Where a path leads from the working directory. -/
def resolve (t : FileTree) (path : String) : Except FileError (List String) :=
  if path.toList.contains '\x00' then .error .nulInName
  else if path = "" then .error .notFound
  else if longestPath < path.utf8ByteSize then .error .nameTooLong
  else t.walk (path.endsWith "/") (if path.startsWith "/" then [] else t.workingDir)
    (pathParts path)

/-- The text of a file. -/
def read (t : FileTree) (path : String) : Except FileError String := do
  match t.entry (← t.resolve path) with
  | .file text => return text
  | .dir => throw .isDirectory
  | .missing => throw .notFound

/-- The tree with a file written; its directory has to exist. -/
def write (t : FileTree) (path text : String) : Except FileError FileTree := do
  let target ← t.resolve path
  match t.entry target with
  | .dir => throw .isDirectory
  | .file _ =>
    return { t with files := t.files.map fun f => if f.1 = target then (target, text) else f }
  | .missing =>
    match t.entry target.dropLast with
    | .dir => return { t with files := t.files ++ [(target, text)] }
    | .file _ => throw .notDirectory
    | .missing => throw .notFound

/-- The tree with one directory made, whose own directory has to exist. -/
def createDir (t : FileTree) (path : String) : Except FileError FileTree := do
  let target ← t.resolve path
  match t.entry target with
  | .dir | .file _ => throw .alreadyExists
  | .missing =>
    match t.entry target.dropLast with
    | .dir => return { t with dirs := t.dirs ++ [target] }
    | .file _ => throw .notDirectory
    | .missing => throw .notFound

/-- Whether a path leads to a directory. -/
def isDir (t : FileTree) (path : String) : Bool :=
  match t.resolve path with
  | .ok target => t.entry target = .dir
  | .error _ => false

/-- The texts of files in the working directory, by their paths relative to it. -/
def contents (t : FileTree) : List (String × String) :=
  t.files.filterMap fun (path, text) =>
    if t.workingDir.isPrefixOf path then
      some ("/".intercalate (path.drop t.workingDir.length), text)
    else none

/-- An operation that may change the tree, leaving it as it is when it fails. -/
def update (change : FileTree → Except FileError FileTree) :
    StateM FileTree (Except FileError Unit) := fun t =>
  match change t with
  | .ok t => (.ok (), t)
  | .error e => (.error e, t)

/-- The operations on a tree in memory. -/
def fileSystem : FileSystem (StateM FileTree) where
  read path := fun t => (t.read path, t)
  createDir path := update (·.createDir path)
  isDir path := fun t => (t.isDir path, t)
  write path text := update (·.write path text)

end FileTree

end InteropGen

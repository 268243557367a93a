/-
Access to files, and trees of files as values.

* **`FileSystem`** — the operations that a build needs, in any monad that offers them;
* **`FileTree`** — the files and directories below a working directory;
* **`FileTree.access`** — the operations on such a tree.

A path leads through directories from left to right. A component that is missing on the way is not
found, and one that is a file is no directory; a slash at the end asks for a directory as well. No
file has a null character in its path, and the lengths of names and paths are limited.
-/
import Libretto.Path

namespace Libretto

/-- Why a file operation fails. -/
inductive FileError where
  | notFound
  | isADirectory
  | notADirectory
  | alreadyExists
  /-- A path with a null character. -/
  | nullInPath
  | nameTooLong
  /-- A text that is not UTF-8. -/
  | invalidData
  | other (message : String)
  deriving DecidableEq, Repr

/-- The wording of a failed file operation. -/
def FileError.message : FileError → String
  | notFound => "no such file or directory"
  | isADirectory => "is a directory"
  | notADirectory => "not a directory"
  | alreadyExists => "file exists"
  | nullInPath => "the path has a null character"
  | nameTooLong => "file name too long"
  | invalidData => "the text is not UTF-8"
  | other message => message

/-- Reading whole files. -/
abbrev FileReader (m : Type → Type) := Path → m (Except FileError (Array UInt8))

/-- The operations on files. -/
structure FileSystem (m : Type → Type) where
  read : FileReader m
  write : Path → Array UInt8 → m (Except FileError Unit)
  /-- Creates a directory and those above it, as far as they are missing. -/
  createDirectories : Path → m (Except FileError Unit)

/-! ### Places -/

/-- A place in a tree: names from the working directory on. What lies above the working directory
and what an absolute path leads to begin with a name that no component has. -/
abbrev Place := List String

namespace Place

/-- The place above the working directory. -/
def above : String := "/.."

/-- The place of the absolute paths. -/
def root : String := "/"

/-- The directory that holds a place. -/
def parent (place : Place) : Place :=
  match place.getLast? with
  | none => [above]
  | some name =>
    if name = above then place ++ [above]
    else if name = root then place
    else place.dropLast

/-- A place outside of the tree that is known to be a directory. -/
def isOutside (place : Place) : Bool :=
  place.all (· = above) || place = [root]

end Place

/-- The components of a path as they are walked. -/
def Path.steps (path : Path) : List String :=
  ((path.chars.splitBy fun a b => a ≠ '/' && b ≠ '/').filter (· ≠ ['/'])).map String.ofList

/-- A slash at the end of a path asks for a directory. -/
def Path.asksForDirectory (path : Path) : Bool :=
  path.chars.getLast? = some '/'

/-- Where the walk along a path begins. -/
def Path.origin (path : Path) : Place :=
  if path.isAbsolute then [Place.root] else []

/-! ### Limits -/

/-- A path holds a null character, so that it is no path of a file. -/
def Path.hasNull (path : Path) : Bool :=
  path.chars.contains '\x00'

/-- The most bytes of a path. -/
def maxPathBytes : Nat := 4095

/-- The most bytes of one name in a path. -/
def maxNameBytes : Nat := 255

/-- Checks that a path can be walked at all. -/
def Path.check (path : Path) : Except FileError Unit :=
  if path.hasNull then .error .nullInPath
  else if path.text.isEmpty then .error .notFound
  else if maxPathBytes < path.text.utf8ByteSize then .error .nameTooLong
  else .ok ()

/-- The place of a name in a directory. -/
def Place.child (directory : Place) (name : String) : Except FileError Place :=
  if maxNameBytes < name.utf8ByteSize then .error .nameTooLong else .ok (directory ++ [name])

/-! ### Trees -/

/-- What stands in a place. -/
inductive FileEntry where
  | file (bytes : Array UInt8)
  | directory
  deriving DecidableEq

/-- The entries below a working directory; of two for one place the first counts. -/
structure FileTree where
  entries : List (Place × FileEntry)

namespace FileTree

/-- What stands in a place. The working directory itself always exists. -/
def entry? (tree : FileTree) (place : Place) : Option FileEntry :=
  if Place.isOutside place then some .directory else tree.entries.lookup place

/-- Puts an entry into a place. -/
def put (tree : FileTree) (place : Place) (entry : FileEntry) : FileTree :=
  ⟨(place, entry) :: tree.entries.filter fun e => e.1 ≠ place⟩

/-- Checks that a place is a directory. -/
def checkDirectory (tree : FileTree) (place : Place) : Except FileError Unit :=
  match tree.entry? place with
  | some .directory => .ok ()
  | some (.file _) => .error .notADirectory
  | none => .error .notFound

/-- The place to which steps lead. It may be missing, but not what lies on the way. -/
def walk (tree : FileTree) (place : Place) : List String → Except FileError Place
  | [] => .ok place
  | step :: rest =>
    match tree.checkDirectory place with
    | .error e => .error e
    | .ok () =>
      if step = "." then tree.walk place rest
      else if step = ".." then tree.walk place.parent rest
      else
        match place.child step with
        | .error e => .error e
        | .ok place => tree.walk place rest

/-- The place of a path. -/
def find (tree : FileTree) (path : Path) : Except FileError Place := do
  path.check
  let place ← tree.walk path.origin path.steps
  if path.asksForDirectory then tree.checkDirectory place
  return place

/-- The bytes of the file at a path. -/
def read (tree : FileTree) (path : Path) : Except FileError (Array UInt8) := do
  match tree.entry? (← tree.find path) with
  | some (.file bytes) => return bytes
  | some .directory => throw .isADirectory
  | none => throw .notFound

/-- The directory in which a path takes its last step, and that step. -/
def findLast (tree : FileTree) (path : Path) : Except FileError (Place × Option String) := do
  path.check
  let directory ← tree.walk path.origin path.steps.dropLast
  tree.checkDirectory directory
  return (directory, path.steps.getLast?)

/-- The place to which the last step leads, if that step is a name. All others lead to a directory
that is there already, and fail as given. -/
def newPlace (known : FileError) (directory : Place) : Option String → Except FileError Place
  | none | some "." | some ".." => .error known
  | some name => directory.child name

/-- The tree with a file of the given bytes at a path, in place of what it held before. -/
def write (tree : FileTree) (path : Path) (bytes : Array UInt8) : Except FileError FileTree := do
  let (directory, last) ← tree.findLast path
  if path.asksForDirectory then throw .isADirectory
  let place ← newPlace .isADirectory directory last
  match tree.entry? place with
  | some .directory => throw .isADirectory
  | _ => return tree.put place (.file bytes)

/-- The tree with a new directory at a path. -/
def createDirectory (tree : FileTree) (path : Path) : Except FileError FileTree := do
  let (directory, last) ← tree.findLast path
  let place ← newPlace .alreadyExists directory last
  match tree.entry? place with
  | some _ => throw .alreadyExists
  | none => return tree.put place .directory

/-- A path leads to a directory. -/
def isDirectory (tree : FileTree) (path : Path) : Bool :=
  match tree.find path with
  | .error _ => false
  | .ok place => tree.entry? place matches some .directory

/-- Creates a directory where none is yet. -/
def ensureDirectory (tree : FileTree) (path : Path) : Except FileError FileTree :=
  match tree.createDirectory path with
  | .ok tree => .ok tree
  | .error e => if tree.isDirectory path then .ok tree else .error e

/-- Creates a directory and, if something on the way to it is missing, first those above it; `room`
bounds their number. What is created stays when the creation fails further on. -/
def createDirectoriesWithin : Nat → Path → FileTree → Except FileError Unit × FileTree
  | 0, _, tree => (.ok (), tree)
  | room + 1, path, tree =>
    match path.parent?, tree.ensureDirectory path with
    | none, _ => (.ok (), tree)
    | some _, .ok tree => (.ok (), tree)
    | some parent, .error .notFound =>
      match createDirectoriesWithin room parent tree with
      | (.error e, tree) => (.error e, tree)
      | (.ok (), tree) =>
        match tree.ensureDirectory path with
        | .ok tree => (.ok (), tree)
        | .error e => (.error e, tree)
    | some _, .error e => (.error e, tree)

/-- Creates a directory and those above it, as far as they are missing. -/
def createDirectories (tree : FileTree) (path : Path) : Except FileError Unit × FileTree :=
  createDirectoriesWithin (path.chars.length + 1) path tree

/-- The file operations on a tree. -/
def access : FileSystem (StateM FileTree) where
  read path tree := (tree.read path, tree)
  write path bytes tree :=
    match tree.write path bytes with
    | .ok tree => (.ok (), tree)
    | .error e => (.error e, tree)
  createDirectories path tree := tree.createDirectories path

end FileTree

end Libretto

import RubyLint.FileTree
import RubyLint.Path
import RubyLint.StackRoom
import RubyLint.Text.Lines
import RubyLint.Text.Quoted
import RubyLint.Text.Utf8

/-!
# File systems

A file system is a tree of files from the root on, with the place of the working directory in it and
with what may be done with each entry.  A place is the list of the names that lead to it from the
root.  A path is followed from the root or from the working directory, one component after the
other; two dots lead back to the parent, and the root is its own parent.  Names and paths have a
limited length, and no path holds a null character.  Text is read as UTF-8 with line endings
unified, and written as it is.
-/

namespace RubyLint

open Text

structure Access where
  read : Bool
  write : Bool
  /-- Whether a path may go on from the directory. -/
  search : Bool
  deriving DecidableEq, Repr

def Access.full : Access := ⟨true, true, true⟩

structure FileSystem where
  root : FileTree
  /-- The place of the working directory. -/
  workingDirectory : List String
  /-- What may be done with the entry at a place. -/
  access : List String → Access

inductive FileError where
  | notFound
  | denied
  | notADirectory
  | isADirectory
  | nameTooLong
  /-- The path holds a null character. -/
  | embeddedNull
  /-- Directories are nested deeper than the stack has room for. -/
  | nestedTooDeep
  deriving DecidableEq, Repr

def FileError.message (path : Path) : FileError → String
  | .notFound => "[Errno 2] No such file or directory: " ++ quoted (toString path)
  | .denied => "[Errno 13] Permission denied: " ++ quoted (toString path)
  | .notADirectory => "[Errno 20] Not a directory: " ++ quoted (toString path)
  | .isADirectory => "[Errno 21] Is a directory: " ++ quoted (toString path)
  | .nameTooLong => "[Errno 36] File name too long: " ++ quoted (toString path)
  | .embeddedNull => "embedded null byte"
  | .nestedTooDeep => "maximum recursion depth exceeded"

/-- Why the text of a file cannot be read. -/
inductive ReadError where
  | file (path : Path) (e : FileError)
  | illFormedText (e : Utf8Error)
  deriving DecidableEq, Repr

def ReadError.message : ReadError → String
  | .file path e => e.message path
  | .illFormedText e => e.message

namespace FileSystem

/-- The number of bytes that a name may have. -/
def nameLimit : Nat := 255

/-- The number of bytes that a whole path has to stay below. -/
def pathLimit : Nat := 4096

def isTooLong (name : String) : Bool := nameLimit < (bytes name).length

/-- The place that one component of a path leads to from `place`. -/
def step (system : FileSystem) (place : List String) (name : String) :
    Except FileError (List String) :=
  match system.root.lookup place with
  | none => .error .notFound
  | some (.file _) => .error .notADirectory
  | some (.directory entries) =>
    if !(system.access place).search then .error .denied
    else if name == "." then .ok place
    else if name == ".." then .ok place.dropLast
    else if isTooLong name then .error .nameTooLong
    else if (entries.lookup name).isSome then .ok (place ++ [name])
    else .error .notFound

def locate (system : FileSystem) (path : Path) : Except FileError (List String) :=
  if (toString path).toList.contains '\x00' then .error .embeddedNull
  else if pathLimit ≤ (bytes (toString path)).length then .error .nameTooLong
  else path.steps.foldlM system.step (if path.isAbsolute then [] else system.workingDirectory)

def find (system : FileSystem) (path : Path) : Except FileError (List String × FileTree) := do
  let place ← system.locate path
  match system.root.lookup place with
  | some tree => return (place, tree)
  | none => throw .notFound

def get (system : FileSystem) (path : Path) : Except FileError FileTree :=
  (·.2) <$> system.find path

/-- What stands at `path`, if anything does.  This cannot be told if the path is too long or leads
through a directory that may not be searched. -/
def get? (system : FileSystem) (path : Path) : Except FileError (Option FileTree) :=
  match system.get path with
  | .ok tree => .ok (some tree)
  | .error .nameTooLong => .error .nameTooLong
  | .error .denied => .error .denied
  | .error _ => .ok none

def read (system : FileSystem) (path : Path) : Except FileError (List UInt8) := do
  let (place, tree) ← system.find path
  if !(system.access place).read then throw .denied
  match tree with
  | .file content => return content
  | .directory _ => throw .isADirectory

def readText (system : FileSystem) (path : Path) : Except ReadError String := do
  let content ← (system.read path).mapError (.file path)
  let text ← (decode content).mapError .illFormedText
  return unifyNewlines text

/-- Puts `text` into the file at `path`, which has to be there. -/
def writeText (system : FileSystem) (path : Path) (text : String) :
    Except FileError FileSystem := do
  let (place, tree) ← system.find path
  if tree.isDirectory then throw .isADirectory
  if !(system.access place).write then throw .denied
  return { system with root := system.root.insert place (.file (bytes text)) }

/-- Whether a walk below `place` comes to the end of `names`: every directory on the way to it can
be listed, and for that each directory before it can be searched. -/
def reaches (system : FileSystem) (place names : List String) : Bool :=
  (List.range names.length).all fun n =>
    (system.access (place ++ names.take n)).read &&
      (n + 1 == names.length || (system.access (place ++ names.take n)).search)

def walk (system : FileSystem) (place : List String) (tree : FileTree) :
    List (List String × FileTree) :=
  tree.descendants.filter fun found => system.reaches place found.1

/-- What breaks off a walk below `path` when it comes to an entry. -/
def walkError? [StackRoom] (path : Path) (found : List String × FileTree) : Option FileError :=
  if !found.2.isDirectory then none
  else if StackRoom.directories < found.1.length then some .nestedTooDeep
  else if pathLimit ≤ (bytes (toString (path.descend found.1))).length then some .nameTooLong
  else none

def componentsPrecede : List String → List String → Bool
  | [], _ => true
  | _ :: _, [] => false
  | a :: as, b :: bs => a < b || (a == b && componentsPrecede as bs)

def rubyNames (found : List (List String × FileTree)) : List (List String) :=
  let named := found.filter fun entry =>
    ".rb".toList.isSuffixOf ((entry.1.getLast?.getD "").toList)
  (named.map (·.1)).mergeSort componentsPrecede

def rubyPaths [StackRoom] (system : FileSystem) (path : Path) : Except FileError (List Path) := do
  let (place, tree) ← system.find path
  let found := system.walk place tree
  match found.findSome? (walkError? path) with
  | some e => throw e
  | none => return (rubyNames found).map path.descend

end FileSystem

end RubyLint

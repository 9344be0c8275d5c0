import RubyLint.CommandLine.Run
import RubyLint.Tree.Archive

/-!
# The program

Reads the working directory, all that the words of the command line lead to and, from standard
input, the archive of syntax trees; runs the command line on them; and then prints what the run has
to say and writes the files that it has changed.
-/

namespace RubyLint

/-- What has been read, with the places that cannot be read or written. -/
structure Reading where
  tree : FileTree
  unreadable : List (List String)
  unwritable : List (List String)

namespace Reading

def system (reading : Reading) (workingDirectory : List String) : FileSystem where
  root := reading.tree
  workingDirectory := workingDirectory
  access place :=
    { read := !reading.unreadable.contains place
      write := !reading.unwritable.contains place
      search := !reading.unreadable.contains place }

def pathOf (place : List String) : String := "/" ++ String.intercalate "/" place

def placeOf (path : String) : IO (List String) := do
  return (Path.ofString (toString (← IO.FS.realPath path))).components

def attempt {α : Type} (action : IO α) : IO (Option α) :=
  try some <$> action catch _ => return none

def addFile (reading : Reading) (place : List String) : IO Reading := do
  let content ← attempt (IO.FS.readBinFile (pathOf place))
  let handle ← attempt (IO.FS.Handle.mk (pathOf place) .readWrite)
  return {
    tree := reading.tree.insert place (.file (content.elim [] (·.toList)))
    unreadable := if content.isSome then reading.unreadable else place :: reading.unreadable
    unwritable := if handle.isSome then reading.unwritable else place :: reading.unwritable }

/-- Adds what stands at a place, with all below it.  Links to directories are left out. -/
partial def add (reading : Reading) (place : List String) : IO Reading := do
  let path ← IO.FS.realPath (pathOf place)
  if !(← path.isDir) then return ← reading.addFile place
  let mut reading := { reading with tree := reading.tree.insert place .empty }
  match ← attempt path.readDir with
  | none => return { reading with unreadable := place :: reading.unreadable }
  | some entries =>
    for entry in entries do
      let entryPlace := place ++ [entry.fileName]
      if let some target ← attempt (placeOf (pathOf entryPlace)) then
        unless target != entryPlace && (← entry.path.isDir) do
          reading ← reading.add entryPlace
    return reading

end Reading

/-- Writes the files of `after` that differ from those of `before`. -/
def writeChanges (before after : FileTree) : IO Unit := do
  let known := before.files
  for (place, content) in after.files do
    if known.lookup place != some content then
      IO.FS.writeBinFile (Reading.pathOf place) (ByteArray.mk content.toArray)

def configTexts : ConfigTexts where
  malformed _ := "it is not TOML"
  invalid problems :=
    String.intercalate "\n" (problems.map fun problem => String.intercalate "." problem.location)

end RubyLint

open RubyLint in
def main (words : List String) : IO UInt32 := do
  let workingDirectory ← Reading.placeOf "."
  let mut reading ← Reading.add ⟨.empty, [], []⟩ workingDirectory
  for word in words.flatMap fun word => word :: word.splitOn "=" do
    if let some place ← Reading.attempt (Reading.placeOf word) then
      unless workingDirectory.isPrefixOf place do
        reading ← reading.add place
  let trees := Archive.read (← (← IO.getStdin).readToEnd)
  let files := reading.system workingDirectory
  let outcome := CommandLine.run ⟨Archive.parser trees, configTexts⟩ words files
  IO.print outcome.output
  for line in outcome.errors do
    IO.eprintln line
  writeChanges files.root outcome.files.root
  match outcome.ending with
  | .exit code => return UInt32.ofNat code
  | .usage =>
    IO.eprintln "Usage: rb-lint [--verbose] (lint [OPTIONS] FILES... | rules)"
    return 2
  | .abort _ =>
    IO.eprintln "Error: the configuration, a path or a target is not usable"
    return 1

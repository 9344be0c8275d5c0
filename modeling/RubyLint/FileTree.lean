/-!
# Trees of files

A directory holds named files and directories.  What lies in a tree is told by the names that lead
to it from the top.
-/

namespace RubyLint

inductive FileTree where
  | file (content : List UInt8)
  | directory (entries : List (String × FileTree))
  deriving Inhabited

namespace FileTree

def empty : FileTree := .directory []

/-- The entries of a directory; a file has none. -/
def entries : FileTree → List (String × FileTree)
  | .file _ => []
  | .directory entries => entries

def isDirectory : FileTree → Bool
  | .file _ => false
  | .directory _ => true

def isFile : FileTree → Bool
  | .file _ => true
  | .directory _ => false

/-- Puts `tree` under `name`, in the place of what was there. -/
def setEntry (name : String) (tree : FileTree) : List (String × FileTree) → List (String × FileTree)
  | [] => [(name, tree)]
  | entry :: rest =>
    if entry.1 == name then (name, tree) :: rest else entry :: setEntry name tree rest

/-- Puts `leaf` at the end of the names, with the directories on the way to it. -/
def insert : (tree : FileTree) → (names : List String) → (leaf : FileTree) → FileTree
  | _, [], leaf => leaf
  | tree, name :: rest, leaf =>
    let below := (tree.entries.lookup name).getD empty
    .directory (setEntry name (insert below rest leaf) tree.entries)

def lookup : (tree : FileTree) → (names : List String) → Option FileTree
  | tree, [] => some tree
  | tree, name :: rest => (tree.entries.lookup name).bind (lookup · rest)

mutual

/-- All that lies below a directory, with the names that lead to it.  A directory comes before what
lies in it. -/
def descendants : FileTree → List (List String × FileTree)
  | .file _ => []
  | .directory entries => entryDescendants entries

def entryDescendants : List (String × FileTree) → List (List String × FileTree)
  | [] => []
  | (name, tree) :: rest =>
    ([name], tree) :: (descendants tree).map (fun found => (name :: found.1, found.2)) ++
      entryDescendants rest

end

/-- The files below a directory with their contents. -/
def files (tree : FileTree) : List (List String × List UInt8) :=
  tree.descendants.filterMap fun found =>
    match found.2 with
    | .file content => some (found.1, content)
    | .directory _ => none

end FileTree

end RubyLint

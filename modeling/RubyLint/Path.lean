/-!
# Paths

A path is a root, which is empty for a relative path, and a list of components.  Empty
components and components that are a single dot vanish when a path is read; two dots stay.  The
path without any component stands for the directory it is relative to and is written as a dot.
-/

namespace RubyLint

structure Path where
  /-- Empty, one slash or two slashes. -/
  root : String
  components : List String
  deriving DecidableEq, Repr, Inhabited

namespace Path

/-- The slashes that `text` begins with, as far as they are a root: three and more are one. -/
def rootOf (text : List Char) : String :=
  match text with
  | '/' :: '/' :: '/' :: _ => "/"
  | '/' :: '/' :: _ => "//"
  | '/' :: _ => "/"
  | _ => ""

def pieces : List Char → List (List Char)
  | [] => [[]]
  | c :: rest =>
    if c == '/' then [] :: pieces rest
    else
      match pieces rest with
      | [] => [[c]]
      | piece :: more => (c :: piece) :: more

def ofString (text : String) : Path :=
  let parts := (pieces text.toList).filter fun piece => piece != [] && piece != ['.']
  ⟨rootOf text.toList, parts.map String.ofList⟩

protected def toString (path : Path) : String :=
  let text := path.root ++ String.intercalate "/" path.components
  if text == "" then "." else text

instance : ToString Path := ⟨Path.toString⟩

def name (path : Path) : String :=
  path.components.getLast?.getD ""

def isAbsolute (path : Path) : Bool := path.root != ""

/-- The names along which a path is followed; a path that is written as a dot goes along that. -/
def steps (path : Path) : List String :=
  if path.components.isEmpty && !path.isAbsolute then ["."] else path.components

def child (path : Path) (name : String) : Path :=
  ⟨path.root, path.components ++ [name]⟩

/-- The path that `components` lead to from the directory `path`. -/
def descend (path : Path) (components : List String) : Path :=
  ⟨path.root, path.components ++ components⟩

/-- Stands for a source that comes from no file. -/
def anonymous : Path := ⟨"", ["<string>"]⟩

end Path

end RubyLint

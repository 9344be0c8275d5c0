import RubyLint.Text.Hex
import RubyLint.Tree.Node

/-!
# Archives of syntax trees

The grammar of Ruby is not part of this library.  Its parser hands over trees in an archive: for
each source a line that holds its text, and then a line for each row of its tree in document
order.  The columns of a line are separated by tabs.  In a text a tab, a line feed, a carriage
return and a backslash are written as a backslash and a letter or another backslash.
-/

namespace RubyLint.Archive

open Text

/-- The text that a column stands for. -/
def unescape : List Char → List Char
  | '\\' :: 't' :: rest => '\t' :: unescape rest
  | '\\' :: 'n' :: rest => '\n' :: unescape rest
  | '\\' :: 'r' :: rest => '\r' :: unescape rest
  | '\\' :: '\\' :: rest => '\\' :: unescape rest
  | c :: rest => c :: unescape rest
  | [] => []

/-- The pieces of a text between the characters `separator`. -/
def columns (separator : Char) : List Char → List (List Char)
  | [] => [[]]
  | c :: rest =>
    if c == separator then [] :: columns separator rest
    else
      match columns separator rest with
      | [] => [[c]]
      | column :: more => (c :: column) :: more

/-- A row from its columns: depth, kind, start, end, flags and field. -/
def row? : List (List Char) → Option Node.Row
  | [depth, kind, start, stop, flags, field] =>
    some {
      depth := ofDigits 10 depth
      kind := String.ofList (unescape kind)
      start := ofDigits 10 start
      stop := ofDigits 10 stop
      named := flags.contains 'n'
      isError := flags.contains 'e'
      isMissing := flags.contains 'm'
      field := if field.isEmpty then none else some (String.ofList (unescape field)) }
  | _ => none

/-- Adds a line in front of what has been read of the lines after it: the rows that belong to no
source yet, and the sources with their rows. -/
def addLine (line : List Char) (read : List Node.Row × List (String × List Node.Row)) :
    List Node.Row × List (String × List Node.Row) :=
  match columns '\t' line with
  | [text] => ([], (String.ofList (unescape text), read.1) :: read.2)
  | line =>
    match row? line with
    | some row => (row :: read.1, read.2)
    | none => read

/-- The sources of an archive with their trees.  A line without rows after it has none. -/
def read (archive : String) : List (String × Node) :=
  let sources := ((columns '\n' archive.toList).foldr addLine ([], [])).2
  sources.filterMap fun (source, rows) => (Node.ofRows? rows).map (source, ·)

/-- The tree of a source; a source that the archive does not hold has an empty one. -/
def parser (trees : List (String × Node)) (source : String) : Node :=
  (trees.lookup source).getD ⟨0, "program", 0, 0, true, false, false, none, []⟩

end RubyLint.Archive

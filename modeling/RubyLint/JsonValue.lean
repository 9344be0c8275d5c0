import RubyLint.Text.Hex

/-!
# Writing JSON

Values are written over several lines with two blanks for each level; an empty list or object
stays on its line.  Control characters are escaped, by a letter if they have one, and all other
characters but the quote and the backslash stand for themselves.
-/

namespace RubyLint

open Text

inductive JsonValue where
  | null
  | boolean (value : Bool)
  | integer (value : Int)
  | text (value : String)
  | list (items : List JsonValue)
  | object (fields : List (String × JsonValue))

namespace JsonValue

def writeChar (c : Char) : List Char :=
  if c == '"' then ['\\', '"']
  else if c == '\\' then ['\\', '\\']
  else if c == '\x08' then ['\\', 'b']
  else if c == '\t' then ['\\', 't']
  else if c == '\n' then ['\\', 'n']
  else if c == '\x0c' then ['\\', 'f']
  else if c == '\r' then ['\\', 'r']
  else if c < ' ' then '\\' :: 'u' :: lowerHexPadded 4 c.toNat
  else [c]

def writeText (value : String) : String :=
  "\"" ++ String.ofList (value.toList.flatMap writeChar) ++ "\""

def newline (level : Nat) : String :=
  "\n" ++ String.ofList (List.replicate (2 * level) ' ')

/-- Puts brackets around written elements, each on a line of its own. -/
def enclose (level : Nat) (opening closing : String) (elements : List String) : String :=
  if elements.isEmpty then opening ++ closing
  else
    opening ++ newline (level + 1) ++ String.intercalate ("," ++ newline (level + 1)) elements ++
      newline level ++ closing

mutual

/-- The text of a value that starts on a line of the given level. -/
def write (level : Nat) : JsonValue → String
  | .null => "null"
  | .boolean value => if value then "true" else "false"
  | .integer value => toString value
  | .text value => writeText value
  | .list items => enclose level "[" "]" (writeItems (level + 1) items)
  | .object fields => enclose level "\x7b" "\x7d" (writeFields (level + 1) fields)

def writeItems (level : Nat) : List JsonValue → List String
  | [] => []
  | item :: rest => write level item :: writeItems level rest

def writeFields (level : Nat) : List (String × JsonValue) → List String
  | [] => []
  | (name, value) :: rest =>
    (writeText name ++ ": " ++ write level value) :: writeFields level rest

end

def render (value : JsonValue) : String := write 0 value

end JsonValue

end RubyLint

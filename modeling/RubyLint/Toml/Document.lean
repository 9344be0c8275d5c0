import RubyLint.Toml.Scalar

/-!
# TOML documents

A document is a sequence of statements, one a line: a key with a value, the header of a table, or
the header of an element of an array of tables.  Values may be arrays and inline tables, which
nest up to a limit; their readers are bounded by the length of the document.  A document is read
from the left, and the first thing that is wrong with it counts.

A table may be opened by a header only once and not after a dotted key has made it, and an inline
value cannot be extended later.
-/

namespace RubyLint.Toml

open Text

/-- What follows a comment, if the text begins with one that holds no control character. -/
def afterComment? (text : List Char) : Option (List Char) :=
  match text with
  | '#' :: rest =>
    if (rest.takeWhile (· != '\n')).any isControl then none else some (rest.dropWhile (· != '\n'))
  | _ => some text

/-- What follows the blanks, line feeds and comments between the elements of an array. -/
def afterGap? : (bound : Nat) → (text : List Char) → Option (List Char)
  | 0, _ => none
  | bound + 1, text => do
    let rest ← afterComment? (text.dropWhile isSpaceOrNewline)
    if rest.length = text.length then some text else afterGap? bound rest

def isBareKeyChar (c : Char) : Bool :=
  c.isAlphanum || c == '-' || c == '_'

def name? (text : List Char) : Option (String × List Char) :=
  match text with
  | '\'' :: rest => (literalString rest).map fun (body, rest) => (String.ofList body, rest)
  | '"' :: rest => (basicString rest).map fun (body, rest) => (String.ofList body, rest)
  | _ =>
    match text.takeWhile isBareKeyChar with
    | [] => none
    | name => some (String.ofList name, text.dropWhile isBareKeyChar)

/-- The names of a key, separated by dots with blanks around them, and what follows the blanks
after it. -/
def key? : (bound : Nat) → (text : List Char) → Option (Key × List Char)
  | 0, _ => none
  | bound + 1, text => do
    let (name, rest) ← name? text
    match rest.dropWhile isSpace with
    | '.' :: rest => do
      let (names, rest) ← key? bound (rest.dropWhile isSpace)
      return (name :: names, rest)
    | rest => return ([name], rest)

/-- Whether `key` or a key that it continues is among `keys`. -/
def isWithin (keys : List Key) (key : Key) : Bool :=
  keys.any fun outer => !outer.isEmpty && outer.isPrefixOf key

/-- Whether later statements cannot extend the value. -/
def Value.isClosed : Value → Bool
  | .array _ => true
  | .table _ => true
  | _ => false

/-- The result of a reader that knows only one way to fail. -/
def orMalformed {α : Type} : Option α → Except Error α
  | some a => .ok a
  | none => .error .malformed

/-- How deep values may be nested: an array takes two, an inline table three. -/
def nestingLimit : Nat := 980

mutual

/-- A value, with `room` left for nesting. -/
def value : (bound room : Nat) → (text : List Char) → Except Error (Value × List Char)
  | 0, _, _ => .error .malformed
  | bound + 1, room, text =>
    match text with
    | '"' :: _ => orMalformed ((string? text).map fun (s, rest) => (.string s, rest))
    | '\'' :: _ => orMalformed ((string? text).map fun (s, rest) => (.string s, rest))
    | 't' :: 'r' :: 'u' :: 'e' :: rest => .ok (.boolean true, rest)
    | 'f' :: 'a' :: 'l' :: 's' :: 'e' :: rest => .ok (.boolean false, rest)
    | '[' :: rest => do
      if room < 2 then throw .tooDeep
      let (items, rest) ← items bound (room - 2) (← orMalformed (afterGap? (rest.length + 1) rest))
      return (.array items, rest)
    | '\x7b' :: rest => do
      if room < 3 then throw .tooDeep
      match rest.dropWhile isSpace with
      | '\x7d' :: rest => return (.table [], rest)
      | rest =>
        let (table, rest) ← fields bound (room - 3) [] [] rest
        return (.table table, rest)
    | _ => momentOrNumber text

def items : (bound room : Nat) → (text : List Char) → Except Error (List Value × List Char)
  | 0, _, _ => .error .malformed
  | bound + 1, room, text =>
    match text with
    | ']' :: rest => .ok ([], rest)
    | _ => do
      let (item, rest) ← value bound room text
      match ← orMalformed (afterGap? (rest.length + 1) rest) with
      | ']' :: rest => return ([item], rest)
      | ',' :: rest => do
        let (items, rest) ← items bound room (← orMalformed (afterGap? (rest.length + 1) rest))
        return (item :: items, rest)
      | _ => throw .malformed

/-- The fields of an inline table up to its closing brace, added to `table`; `closed` are the keys
of the inline values among them. -/
def fields : (bound room : Nat) → (table : Table) → (closed : List Key) → (text : List Char) →
    Except Error (Table × List Char)
  | 0, _, _, _, _ => .error .malformed
  | bound + 1, room, table, closed, text => do
    let (key, rest) ← orMalformed (key? (text.length + 1) text)
    let (value, rest) ← value bound room ((← orMalformed (after? '=' rest)).dropWhile isSpace)
    if isWithin closed key then throw .malformed
    let name ← orMalformed key.getLast?
    let table ← orMalformed (table.update false (Table.add name value) key.dropLast)
    match rest.dropWhile isSpace with
    | '\x7d' :: rest => return (table, rest)
    | ',' :: rest =>
      let closed := if value.isClosed then key :: closed else closed
      fields bound room table closed (rest.dropWhile isSpace)
    | _ => throw .malformed

end

structure Document where
  root : Table
  /-- The table that keys belong to. -/
  header : Key
  /-- The tables that no header may open any more. -/
  opened : List Key
  /-- The tables that dotted keys have gone through since the last header. -/
  dotted : List Key
  /-- The keys of inline values. -/
  closed : List Key

namespace Document

def empty : Document := ⟨[], [], [], [], []⟩

/-- Keys that dotted keys have gone through count as opened from the next header on. -/
def settle (doc : Document) : Document :=
  { doc with opened := doc.dotted ++ doc.opened, dotted := [] }

def openTable (doc : Document) (key : Key) : Option Document := do
  let doc := doc.settle
  if doc.opened.contains key || isWithin doc.closed key then none
  let root ← doc.root.update true some key
  return { doc with root, header := key, opened := key :: doc.opened }

def openElement (doc : Document) (key : Key) : Option Document := do
  let doc := doc.settle
  if isWithin doc.closed key then none
  let name ← key.getLast?
  let root ← doc.root.update true (Table.addToArray name) key.dropLast
  return { doc with
    root
    header := key
    opened := key :: doc.opened.filter (!key.isPrefixOf ·)
    closed := doc.closed.filter (!key.isPrefixOf ·) }

/-- The keys that a dotted key goes through, below the header. -/
def throughKeys (doc : Document) (key : Key) : List Key :=
  (List.range (key.length - 1)).map fun i => doc.header ++ key.take (i + 1)

def addValue (doc : Document) (key : Key) (value : Value) : Option Document := do
  let through := doc.throughKeys key
  if through.any doc.opened.contains then none
  let parent := doc.header ++ key.dropLast
  if isWithin doc.closed parent then none
  let name ← key.getLast?
  let root ← doc.root.update true (Table.add name value) parent
  return { doc with
    root
    dotted := through ++ doc.dotted
    closed := if value.isClosed then (doc.header ++ key) :: doc.closed else doc.closed }

/-- Reads one statement, which is not a blank line, and gives what follows it. -/
def statement (doc : Document) (text : List Char) : Except Error (Document × List Char) :=
  match text with
  | '#' :: _ => .ok (doc, text)
  | '[' :: '[' :: rest => orMalformed do
    let (key, rest) ← key? (rest.length + 1) (rest.dropWhile isSpace)
    let doc ← doc.openElement key
    return (doc, ← after? ']' (← after? ']' rest))
  | '[' :: rest => orMalformed do
    let (key, rest) ← key? (rest.length + 1) (rest.dropWhile isSpace)
    let doc ← doc.openTable key
    return (doc, ← after? ']' rest)
  | _ => do
    let (key, rest) ← orMalformed (key? (text.length + 1) text)
    let rest ← orMalformed (after? '=' rest)
    let (value, rest) ← value (text.length + 1) nestingLimit (rest.dropWhile isSpace)
    return (← orMalformed (doc.addValue key value), rest)

def statements : (bound : Nat) → (doc : Document) → (text : List Char) → Except Error Document
  | 0, _, _ => .error .malformed
  | bound + 1, doc, text =>
    match text.dropWhile isSpace with
    | [] => .ok doc
    | '\n' :: rest => statements bound doc rest
    | text => do
      let (doc, rest) ← doc.statement text
      match ← orMalformed (afterComment? (rest.dropWhile isSpace)) with
      | [] => return doc
      | '\n' :: rest => statements bound doc rest
      | _ => throw .malformed

end Document

/-- Turns each carriage return before a line feed and that line feed into one line feed. -/
def unifyLineEnds : List Char → List Char
  | '\r' :: '\n' :: rest => '\n' :: unifyLineEnds rest
  | c :: rest => c :: unifyLineEnds rest
  | [] => []

def parse (text : String) : Except Error Table :=
  let chars := unifyLineEnds text.toList
  (Document.empty.statements (chars.length + 1) chars).map (·.root)

end RubyLint.Toml

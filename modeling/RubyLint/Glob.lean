/-!
# Glob patterns

A pattern is matched against a whole text.  A star matches any text, a question mark any one
character, and brackets one character of a set; every other character matches itself.  A bracket
without a closing one is an ordinary character, and so is a closing bracket at the start of a set.

Within a set a hyphen between two characters makes a range.  A range whose ends are in the wrong
order holds nothing: it is taken out together with its two ends before the set is looked at
further.  An exclamation mark at the start of what is left negates the set.  A hyphen that then
has nothing before it makes no range and is itself a character of the set.
-/

namespace RubyLint.Glob

inductive SetItem where
  | char (c : Char)
  | range (low high : Char)
  deriving DecidableEq, Repr

def SetItem.holds (item : SetItem) (c : Char) : Bool :=
  match item with
  | .char d => c == d
  | .range low high => low ≤ c && c ≤ high

inductive Piece where
  | star
  | anyChar
  | char (c : Char)
  | set (negated : Bool) (items : List SetItem)
  deriving DecidableEq, Repr

def Piece.holds (piece : Piece) (c : Char) : Bool :=
  match piece with
  | .star => false
  | .anyChar => true
  | .char d => c == d
  | .set negated items => items.any (·.holds c) != negated

/-- Cuts the text of a set at the hyphens that make ranges.  The first `skip` characters of each
chunk are not looked at; a hyphen at the very end belongs to the last chunk. -/
def chunksFrom (current : List Char) : (skip : Nat) → List Char → List (List Char)
  | _, [] => [current.reverse]
  | skip + 1, c :: rest => chunksFrom (c :: current) skip rest
  | 0, c :: rest =>
    if c == '-' then
      match rest with
      | [] => [(c :: current).reverse]
      | _ => current.reverse :: chunksFrom [] 2 rest
    else
      chunksFrom (c :: current) 0 rest

def chunks (text : List Char) : List (List Char) :=
  chunksFrom [] (if text.head? == some '!' then 2 else 1) text

/-- Takes out the ranges whose ends are in the wrong order. -/
def dropEmptyRanges : List (List Char) → List (List Char)
  | [] => []
  | chunk :: rest =>
    match dropEmptyRanges rest with
    | [] => [chunk]
    | next :: more =>
      match chunk.getLast?, next.head? with
      | some low, some high =>
        if high < low then (chunk.dropLast ++ next.drop 1) :: more else chunk :: next :: more
      | _, _ => chunk :: next :: more

/-- The items of chunks, where the last character of each chunk and the first of the next one are
the ends of a range.  A hyphen that lacks one of its ends is itself an item. -/
def itemsOf : List (List Char) → List SetItem
  | [] => []
  | [chunk] => chunk.map .char
  | chunk :: next :: rest =>
    match chunk.getLast?, next with
    | some low, high :: remaining =>
      chunk.dropLast.map .char ++ .range low high :: itemsOf (remaining :: rest)
    | _, _ => chunk.map .char ++ .char '-' :: itemsOf (next :: rest)
termination_by pieces => pieces.length

def setPiece (text : List Char) : Piece :=
  match dropEmptyRanges (chunks text) with
  | ('!' :: chunk) :: rest => .set true (itemsOf (chunk :: rest))
  | pieces => .set false (itemsOf pieces)

/-- The number of characters before the bracket that closes a set; an exclamation mark and a
closing bracket at the start are characters of the set. -/
def setWidth (text : List Char) : Nat :=
  let start := if text.head? == some '!' then 1 else 0
  let start := if (text.drop start).head? == some ']' then start + 1 else start
  start + ((text.drop start).takeWhile (· != ']')).length

/-- The text of a set up to its closing bracket, if there is one, and what follows it. -/
def setText? (text : List Char) : Option (List Char × List Char) :=
  if setWidth text < text.length then
    some (text.take (setWidth text), text.drop (setWidth text + 1))
  else
    none

theorem setText?_length_lt {text inner rest : List Char} (h : setText? text = some (inner, rest)) :
    rest.length < text.length := by
  unfold setText? at h
  split at h
  · simp only [Option.some.injEq, Prod.mk.injEq] at h
    rw [← h.2, List.length_drop]
    omega
  · simp at h

def pieces (pattern : List Char) : List Piece :=
  match pattern with
  | [] => []
  | c :: rest =>
    if c == '*' then .star :: pieces rest
    else if c == '?' then .anyChar :: pieces rest
    else if c == '[' then
      match h : setText? rest with
      | some (inner, rest') =>
        have := setText?_length_lt h
        setPiece inner :: pieces rest'
      | none => .char c :: pieces rest
    else .char c :: pieces rest
termination_by pattern.length

/-- For each place of `row` whether it or a later one is set. -/
def fromSome : (row : List Bool) → List Bool
  | [] => []
  | b :: rest => (b :: rest).any (fun b => b) :: fromSome rest

/-- For each place of `text`, its end included, whether `pattern` matches all that follows. -/
def matchRow (text : List Char) : (pattern : List Piece) → List Bool
  | [] => text.map (fun _ => false) ++ [true]
  | .star :: pattern => fromSome (matchRow text pattern)
  | piece :: pattern =>
    List.zipWith (fun c matched => piece.holds c && matched) text (matchRow text pattern).tail ++
      [false]

/-- Whether the pattern matches the whole text. -/
def isMatch (pattern text : String) : Bool :=
  (matchRow text.toList (pieces pattern.toList)).headD false

end RubyLint.Glob

/-!
# Values of TOML documents

A document is a table: named values in the order in which their names first appear.  Numbers,
dates and times keep their source text, because only their kind matters to a configuration.

A key is a path of names.  `Table.update` changes the table at the end of a path and makes the
tables on the way that do not exist yet; on its way through an array of tables it goes on in the
last one.
-/

namespace RubyLint.Toml

inductive Error where
  /-- It breaks the rules of the format. -/
  | malformed
  /-- It holds a decimal integer of so many digits. -/
  | tooManyDigits (count : Nat)
  /-- Its values are nested too deep. -/
  | tooDeep
  deriving DecidableEq, Repr

/-- The number of digits that a decimal integer may have. -/
def digitLimit : Nat := 4300

def Error.message? : Error → Option String
  | .tooManyDigits count =>
    some ("Exceeds the limit (" ++ toString digitLimit ++
      " digits) for integer string conversion: value has " ++ toString count ++
      " digits; use sys.set_int_max_str_digits() to increase the limit")
  | _ => none

inductive Value where
  | string (text : String)
  | boolean (value : Bool)
  | number (text : String)
  /-- A date, a time or both. -/
  | moment (text : String)
  | array (items : List Value)
  | table (entries : List (String × Value))
  deriving Inhabited, Repr

namespace Value

mutual

def beq : Value → Value → Bool
  | .string text, .string text' => text == text'
  | .boolean value, .boolean value' => value == value'
  | .number text, .number text' => text == text'
  | .moment text, .moment text' => text == text'
  | .array items, .array items' => beqItems items items'
  | .table entries, .table entries' => beqEntries entries entries'
  | _, _ => false

def beqItems : List Value → List Value → Bool
  | [], [] => true
  | item :: items, item' :: items' => beq item item' && beqItems items items'
  | _, _ => false

def beqEntries : List (String × Value) → List (String × Value) → Bool
  | [], [] => true
  | (name, value) :: entries, (name', value') :: entries' =>
    name == name' && beq value value' && beqEntries entries entries'
  | _, _ => false

end

mutual

theorem beq_iff : ∀ value value' : Value, beq value value' = true ↔ value = value'
  | .string _, value' | .boolean _, value' | .number _, value' | .moment _, value' => by
    cases value' <;> simp [beq]
  | .array items, value' => by cases value' <;> simp [beq, beqItems_iff items]
  | .table entries, value' => by cases value' <;> simp [beq, beqEntries_iff entries]

theorem beqItems_iff : ∀ items items' : List Value, beqItems items items' = true ↔ items = items'
  | [], items' => by cases items' <;> simp [beqItems]
  | item :: items, items' => by
    cases items' <;> simp [beqItems, beq_iff item, beqItems_iff items]

theorem beqEntries_iff : ∀ entries entries' : List (String × Value),
    beqEntries entries entries' = true ↔ entries = entries'
  | [], entries' => by cases entries' <;> simp [beqEntries]
  | (name, value) :: entries, entries' => by
    cases entries' <;> simp [beqEntries, beq_iff value, beqEntries_iff entries, Prod.ext_iff]

end

instance : DecidableEq Value := fun value value' => decidable_of_iff _ (beq_iff value value')

end Value

/-- Named values in order of appearance. -/
abbrev Table := List (String × Value)

/-- A path of names. -/
abbrev Key := List String

namespace Table

/-- Puts `value` under `name`, in the place of what was there or at the end. -/
def set (name : String) (value : Value) : Table → Table
  | [] => [(name, value)]
  | entry :: rest =>
    if entry.1 == name then (name, value) :: rest else entry :: set name value rest

/-- Changes the table at the end of `key` by `change`.  There is none if a value that is no table
stands in the way; arrays are entered only if `intoArrays` holds. -/
def update (intoArrays : Bool) (change : Table → Option Table) : Key → Table → Option Table
  | [], table => change table
  | name :: rest, table =>
    match table.lookup name with
    | none => do
      let inner ← update intoArrays change rest []
      return set name (.table inner) table
    | some (.table entries) => do
      let inner ← update intoArrays change rest entries
      return set name (.table inner) table
    | some (.array items) =>
      match intoArrays, items.getLast? with
      | true, some (.table entries) => do
        let inner ← update intoArrays change rest entries
        return set name (.array (items.dropLast ++ [.table inner])) table
      | _, _ => none
    | some _ => none

/-- Adds a value under a name that is not taken. -/
def add (name : String) (value : Value) (table : Table) : Option Table :=
  if (table.lookup name).isSome then none else some (table ++ [(name, value)])

/-- Adds an empty table to the array under `name`, which is made if it does not exist. -/
def addToArray (name : String) (table : Table) : Option Table :=
  match table.lookup name with
  | none => some (table ++ [(name, .array [.table []])])
  | some (.array items) => some (set name (.array (items ++ [.table []])) table)
  | some _ => none

end Table

end RubyLint.Toml

import RubyLint.FileSystem
import RubyLint.Proofs.Outcomes
import RubyLint.Proofs.Utf8RoundTrip
import Mathlib.Tactic

/-!
# The outline of a file system

The outline of a file system has the same names and directories, and all its files are empty.  Where
a path leads, whether anything stands there, and which names lie below a directory can be read off
the outline.  Writing a file that exists keeps the outline, makes the file read back as it was
written, and leaves every other file alone.
-/

namespace RubyLint

open Text

namespace FileTree

mutual

/-- The tree with all its files emptied. -/
def outline : FileTree → FileTree
  | .file _ => .file []
  | .directory entries => .directory (entryOutlines entries)

def entryOutlines : List (String × FileTree) → List (String × FileTree)
  | [] => []
  | (name, tree) :: rest => (name, tree.outline) :: entryOutlines rest

end

variable {tree : FileTree} {components : List String}

theorem entryOutlines_eq_map (entries : List (String × FileTree)) :
    entryOutlines entries = entries.map fun entry => (entry.1, entry.2.outline) := by
  induction entries with
  | nil => rfl
  | cons entry rest ih =>
      obtain ⟨name, tree⟩ := entry
      rw [entryOutlines, ih, List.map_cons]

theorem entries_outline (tree : FileTree) :
    tree.outline.entries = tree.entries.map fun entry => (entry.1, entry.2.outline) := by
  cases tree with
  | file content => rfl
  | directory entries =>
      rw [outline]
      exact entryOutlines_eq_map entries

/-! ## What the outline shows -/

theorem lookup_map_outline (entries : List (String × FileTree)) (name : String) :
    (entries.map fun entry => (entry.1, entry.2.outline)).lookup name =
      (entries.lookup name).map outline := by
  induction entries with
  | nil => rfl
  | cons entry rest ih =>
      obtain ⟨name', below⟩ := entry
      simp only [List.map_cons, List.lookup_cons]
      split
      · rfl
      · exact ih

theorem lookup_outline (tree : FileTree) (components : List String) :
    tree.outline.lookup components = (tree.lookup components).map outline := by
  induction components generalizing tree with
  | nil => rfl
  | cons name rest ih =>
      rw [lookup, lookup, entries_outline, lookup_map_outline]
      cases tree.entries.lookup name with
      | none => rfl
      | some below => exact ih below

theorem isDirectory_outline (tree : FileTree) : tree.outline.isDirectory = tree.isDirectory := by
  cases tree <;> rfl

mutual

theorem descendants_outline (tree : FileTree) :
    tree.outline.descendants = tree.descendants.map fun found => (found.1, found.2.outline) :=
  match tree with
  | .file _ => rfl
  | .directory entries => by
      rw [outline, descendants, descendants]
      exact entryDescendants_entryOutlines entries

theorem entryDescendants_entryOutlines (entries : List (String × FileTree)) :
    entryDescendants (entryOutlines entries) =
      (entryDescendants entries).map fun found => (found.1, found.2.outline) :=
  match entries with
  | [] => rfl
  | (name, tree) :: rest => by
      rw [entryOutlines, entryDescendants, entryDescendants, descendants_outline tree,
        entryDescendants_entryOutlines rest]
      simp

end

/-! ## Writing a file that exists -/

theorem lookup_setEntry_self (name : String) (tree : FileTree)
    (entries : List (String × FileTree)) :
    (setEntry name tree entries).lookup name = some tree := by
  induction entries with
  | nil => simp [setEntry]
  | cons entry rest ih =>
      obtain ⟨other, below⟩ := entry
      rw [setEntry]
      by_cases hother : other = name
      · simp [hother]
      · have hother' : (name == other) = false := by simpa using Ne.symm hother
        simp [hother, List.lookup_cons, hother', ih]

theorem lookup_setEntry_of_ne
    {name name' : String} (hne : name' ≠ name) (tree : FileTree)
    (entries : List (String × FileTree)) :
    (setEntry name tree entries).lookup name' = entries.lookup name' := by
  have hne' : (name' == name) = false := by simpa using hne
  induction entries with
  | nil => simp [setEntry, List.lookup_cons, hne']
  | cons entry rest ih =>
      obtain ⟨other, below⟩ := entry
      rw [setEntry]
      by_cases hother : other = name
      · simp [hother, List.lookup_cons, hne']
      · simp [hother, List.lookup_cons, ih]

theorem map_outline_setEntry
    {name : String} {old new : FileTree} {entries : List (String × FileTree)}
    (hold : entries.lookup name = some old) (houtline : new.outline = old.outline) :
    (setEntry name new entries).map (fun entry => (entry.1, entry.2.outline)) =
      entries.map fun entry => (entry.1, entry.2.outline) := by
  induction entries with
  | nil => simp at hold
  | cons entry rest ih =>
      obtain ⟨other, below⟩ := entry
      rw [setEntry]
      by_cases hother : other = name
      · have hbelow : below = old := by simpa [List.lookup_cons, hother] using hold
        simp [hother, hbelow, houtline]
      · have hother' : (name == other) = false := by simpa using Ne.symm hother
        have hrest : rest.lookup name = some old := by
          simpa [List.lookup_cons, hother'] using hold
        simp [hother, ih hrest]

theorem lookup_insert_self (tree : FileTree) (components : List String) (leaf : FileTree) :
    (tree.insert components leaf).lookup components = some leaf := by
  induction components generalizing tree with
  | nil => rfl
  | cons name rest ih =>
      rw [insert, lookup, entries, lookup_setEntry_self]
      exact ih _

/-- A name on the way to a file stands in a directory. -/
theorem exists_directory_of_lookup
    {name : String} {rest : List String} {found : FileTree}
    (hfound : tree.lookup (name :: rest) = some found) :
    ∃ entries below, tree = .directory entries ∧ entries.lookup name = some below ∧
      below.lookup rest = some found := by
  cases tree with
  | file content => simp [lookup, entries] at hfound
  | directory entries =>
      rw [lookup, FileTree.entries] at hfound
      obtain ⟨below, hbelow, hfound⟩ := Option.bind_eq_some_iff.mp hfound
      exact ⟨entries, below, rfl, hbelow, hfound⟩

theorem outline_insert
    {old new : List UInt8} (hold : tree.lookup components = some (.file old)) :
    (tree.insert components (.file new)).outline = tree.outline := by
  induction components generalizing tree with
  | nil =>
      cases hold
      rfl
  | cons name rest ih =>
      obtain ⟨entries, below, rfl, hbelow, hleaf⟩ := exists_directory_of_lookup hold
      rw [insert, FileTree.entries, hbelow, Option.getD_some, outline, outline,
        entryOutlines_eq_map, entryOutlines_eq_map, map_outline_setEntry hbelow (ih hleaf)]

/-- The bytes of a file; a directory has none. -/
def content? : FileTree → Option (List UInt8)
  | .file content => some content
  | .directory _ => none

theorem content?_insert_of_ne
    {old new : List UInt8} {others : List String}
    (hold : tree.lookup components = some (.file old)) (hne : others ≠ components) :
    ((tree.insert components (.file new)).lookup others).map content? =
      (tree.lookup others).map content? := by
  induction components generalizing tree others with
  | nil =>
      cases hold
      cases others with
      | nil => exact absurd rfl hne
      | cons name' rest' => rfl
  | cons name rest ih =>
      obtain ⟨entries, below, rfl, hbelow, hleaf⟩ := exists_directory_of_lookup hold
      rw [insert, FileTree.entries, hbelow, Option.getD_some]
      cases others with
      | nil => rfl
      | cons name' rest' =>
          rw [lookup, lookup, FileTree.entries, FileTree.entries]
          by_cases hname : name' = name
          · subst hname
            rw [lookup_setEntry_self, hbelow]
            exact ih hleaf (by simpa using hne)
          · rw [lookup_setEntry_of_ne hname]

end FileTree

namespace FileSystem

/-- The file system with all its files emptied. -/
def outline (system : FileSystem) : FileSystem := { system with root := system.root.outline }

variable {system after : FileSystem} {path other : Path}

/-! ## What is found -/

theorem step_outline (system : FileSystem) : system.outline.step = system.step := by
  funext place name
  unfold step outline
  rw [FileTree.lookup_outline]
  cases system.root.lookup place with
  | none => rfl
  | some tree =>
      cases tree with
      | file content => rfl
      | directory entries =>
          simp only [Option.map_some, FileTree.outline, FileTree.entryOutlines_eq_map,
            FileTree.lookup_map_outline, Option.isSome_map]

theorem locate_outline (system : FileSystem) (path : Path) :
    system.outline.locate path = system.locate path := by
  unfold locate
  rw [step_outline]
  rfl

theorem locate_eq_of_outline_eq (houtline : system.outline = after.outline) (path : Path) :
    system.locate path = after.locate path := by
  rw [← locate_outline system, houtline, locate_outline]

theorem find_eq_ok_iff {place : List String} {tree : FileTree} :
    system.find path = .ok (place, tree) ↔
      system.locate path = .ok place ∧ system.root.lookup place = some tree := by
  unfold find
  rw [Outcome.bind_eq_ok_iff]
  constructor
  · rintro ⟨found, hlocate, hfound⟩
    cases hlookup : system.root.lookup found with
    | none => simp [hlookup, throw, throwThe, MonadExceptOf.throw] at hfound
    | some below =>
        simp only [hlookup, pure, Except.pure, Except.ok.injEq, Prod.mk.injEq] at hfound
        obtain ⟨rfl, rfl⟩ := hfound
        exact ⟨hlocate, hlookup⟩
  · rintro ⟨hlocate, hlookup⟩
    exact ⟨place, hlocate, by simp [hlookup, pure, Except.pure]⟩

theorem find_outline (system : FileSystem) (path : Path) :
    system.outline.find path =
      (fun found => (found.1, found.2.outline)) <$> system.find path := by
  unfold find
  rw [locate_outline]
  cases system.locate path with
  | error e => rfl
  | ok place =>
      simp only [bind, Except.bind, outline, FileTree.lookup_outline]
      cases system.root.lookup place <;> rfl

theorem get?_outline (system : FileSystem) (path : Path) :
    system.outline.get? path = (system.get? path).map (Option.map FileTree.outline) := by
  unfold get? get
  rw [find_outline]
  cases system.find path with
  | error e => cases e <;> rfl
  | ok found => rfl

theorem walk_outline (system : FileSystem) (place : List String) (tree : FileTree) :
    system.outline.walk place tree.outline =
      (system.walk place tree).map fun found => (found.1, found.2.outline) := by
  unfold walk
  rw [FileTree.descendants_outline, List.filter_map]
  rfl

theorem rubyNames_map_outline (found : List (List String × FileTree)) :
    rubyNames (found.map fun entry => (entry.1, entry.2.outline)) = rubyNames found := by
  unfold rubyNames
  simp only [List.filter_map, List.map_map]
  rfl

theorem rubyPaths_outline [StackRoom] (system : FileSystem) (path : Path) :
    system.outline.rubyPaths path = system.rubyPaths path := by
  unfold rubyPaths
  rw [find_outline]
  cases system.find path with
  | error e => rfl
  | ok found =>
      have herror : (walkError? path ∘ fun entry => (entry.1, entry.2.outline)) =
          walkError? path := by
        funext entry
        simp only [Function.comp_apply, walkError?, FileTree.isDirectory_outline]
      simp only [bind, Except.bind, Functor.map, Except.map, walk_outline, List.findSome?_map,
        herror, rubyNames_map_outline]

/-! ## Reading and writing -/

/-- The two paths lead to the same place. -/
def SamePlace (system : FileSystem) (path other : Path) : Prop :=
  ∃ place, system.locate path = .ok place ∧ system.locate other = .ok place

theorem SamePlace.symm (hsame : system.SamePlace path other) : system.SamePlace other path := by
  obtain ⟨place, hpath, hother⟩ := hsame
  exact ⟨place, hother, hpath⟩

theorem samePlace_iff_of_outline_eq (houtline : system.outline = after.outline) :
    system.SamePlace path other ↔ after.SamePlace path other := by
  unfold SamePlace
  rw [locate_eq_of_outline_eq houtline path, locate_eq_of_outline_eq houtline other]

theorem read_of_find {place : List String} {tree : FileTree}
    (hfind : system.find path = .ok (place, tree)) :
    system.read path = if (system.access place).read then
      tree.content?.elim (.error .isADirectory) .ok else .error .denied := by
  unfold read
  simp only [hfind, bind, Except.bind]
  cases (system.access place).read with
  | false => rfl
  | true => cases tree <;> rfl

theorem read_of_find_error {e : FileError} (hfind : system.find path = .error e) :
    system.read path = .error e := by
  unfold read
  rw [hfind]
  rfl

theorem read_eq_ok_iff {content : List UInt8} :
    system.read path = .ok content ↔
      ∃ place, system.locate path = .ok place ∧ system.root.lookup place = some (.file content) ∧
        (system.access place).read = true := by
  constructor
  · intro hread
    cases hfind : system.find path with
    | error e => simp [read_of_find_error hfind] at hread
    | ok found =>
        obtain ⟨place, tree⟩ := found
        obtain ⟨hlocate, hlookup⟩ := find_eq_ok_iff.mp hfind
        rw [read_of_find hfind] at hread
        split at hread
        next haccess =>
          cases tree with
          | file content' =>
              cases hread
              exact ⟨place, hlocate, hlookup, haccess⟩
          | directory entries => cases hread
        next => cases hread
  · rintro ⟨place, hlocate, hlookup, haccess⟩
    rw [read_of_find (find_eq_ok_iff.mpr ⟨hlocate, hlookup⟩), if_pos haccess]
    rfl

/-- Reading looks at nothing but the place that the path leads to. -/
theorem read_eq_of_content?_eq (houtline : system.outline = after.outline)
    (hcontent : ∀ place, after.locate path = .ok place →
      (system.root.lookup place).map FileTree.content? =
        (after.root.lookup place).map FileTree.content?) :
    system.read path = after.read path := by
  have haccess : system.outline.access = after.outline.access := by rw [houtline]
  change system.access = after.access at haccess
  have hlocate := locate_eq_of_outline_eq houtline path
  have hfind : (fun found => (found.1, found.2.content?)) <$> system.find path =
      (fun found => (found.1, found.2.content?)) <$> after.find path := by
    unfold find
    rw [hlocate]
    cases hplace : after.locate path with
    | error e => rfl
    | ok place =>
        have hsame := hcontent place hplace
        simp only [bind, Except.bind]
        cases hleft : system.root.lookup place <;> cases hright : after.root.lookup place <;>
          simp_all [Functor.map, Except.map, pure, Except.pure]
  cases hleft : system.find path with
  | error e =>
      rw [hleft] at hfind
      rw [read_of_find_error hleft, read_of_find_error (Outcome.map_eq_error_iff.mp hfind.symm)]
  | ok found =>
      rw [hleft] at hfind
      obtain ⟨found', hright, hsame⟩ := Outcome.map_eq_ok_iff.mp hfind.symm
      obtain ⟨hplace, hcontents⟩ := Prod.mk.inj hsame
      rw [read_of_find hleft, read_of_find hright, haccess, hplace, hcontents]

theorem writeText_eq_ok_iff {text : String} :
    system.writeText path text = .ok after ↔
      ∃ place old, system.locate path = .ok place ∧
        system.root.lookup place = some (.file old) ∧ (system.access place).write = true ∧
        after = { system with root := system.root.insert place (.file (bytes text)) } := by
  unfold writeText
  constructor
  · intro hwrite
    cases hfind : system.find path with
    | error e => simp [hfind, bind, Except.bind] at hwrite
    | ok found =>
        obtain ⟨place, tree⟩ := found
        obtain ⟨hlocate, hlookup⟩ := find_eq_ok_iff.mp hfind
        simp only [hfind, bind, Except.bind] at hwrite
        cases tree with
        | directory entries => cases hwrite
        | file old =>
            cases haccess : (system.access place).write with
            | false =>
                simp [haccess, FileTree.isDirectory, throw, throwThe, MonadExceptOf.throw] at hwrite
            | true =>
                simp only [haccess] at hwrite
                cases hwrite
                exact ⟨place, old, hlocate, hlookup, haccess, rfl⟩
  · rintro ⟨place, old, hlocate, hlookup, haccess, rfl⟩
    simp only [find_eq_ok_iff.mpr ⟨hlocate, hlookup⟩, bind, Except.bind, FileTree.isDirectory,
      haccess]
    rfl

/-- Whether a file can be written shows in the outline. -/
theorem writeText_outline (system : FileSystem) (path : Path) (text : String) :
    (system.outline.writeText path text).map (fun _ => ()) =
      (system.writeText path text).map fun _ => () := by
  unfold writeText
  rw [find_outline]
  cases system.find path with
  | error e => rfl
  | ok found =>
      obtain ⟨place, tree⟩ := found
      simp only [Functor.map, Except.map, bind, Except.bind, FileTree.isDirectory_outline, outline]
      cases tree.isDirectory with
      | true => rfl
      | false =>
          by_cases haccess : (system.access place).write = true
          · simp only [haccess]
            rfl
          · simp only [haccess]
            rfl

section Write

variable {text : String} (hwrite : system.writeText path text = .ok after)

include hwrite

theorem outline_writeText : after.outline = system.outline := by
  obtain ⟨place, old, -, hlookup, -, rfl⟩ := writeText_eq_ok_iff.mp hwrite
  unfold outline
  rw [FileTree.outline_insert hlookup]

theorem lookup_writeText {place : List String} (hplace : system.locate path = .ok place) :
    after.root.lookup place = some (.file (bytes text)) := by
  obtain ⟨place', old, hlocate, -, -, rfl⟩ := writeText_eq_ok_iff.mp hwrite
  cases hplace.symm.trans hlocate
  exact FileTree.lookup_insert_self system.root place _

theorem read_writeText_of_samePlace {old : List UInt8} (hold : system.read path = .ok old)
    (hsame : system.SamePlace path other) : after.read other = .ok (bytes text) := by
  have houtline := outline_writeText hwrite
  obtain ⟨place, hlocate, -, hread⟩ := read_eq_ok_iff.mp hold
  obtain ⟨place', hpath, hother⟩ := hsame
  obtain ⟨place'', _, hwritten, -, -, rfl⟩ := writeText_eq_ok_iff.mp hwrite
  cases hlocate.symm.trans hpath
  cases hlocate.symm.trans hwritten
  rw [read_eq_ok_iff, locate_eq_of_outline_eq houtline]
  exact ⟨place, hother, FileTree.lookup_insert_self system.root place _, hread⟩

theorem read_writeText_self {old : List UInt8} (hold : system.read path = .ok old) :
    after.read path = .ok (bytes text) := by
  obtain ⟨place, hlocate, -⟩ := read_eq_ok_iff.mp hold
  exact read_writeText_of_samePlace hwrite hold ⟨place, hlocate, hlocate⟩

theorem read_writeText_of_not_samePlace (hother : ¬ system.SamePlace path other) :
    after.read other = system.read other := by
  have houtline := outline_writeText hwrite
  obtain ⟨place, old, hlocate, hlookup, -, rfl⟩ := writeText_eq_ok_iff.mp hwrite
  refine read_eq_of_content?_eq houtline ?_
  intro others hothers
  have hne : others ≠ place := by
    rintro rfl
    exact hother ⟨others, hlocate, hothers⟩
  exact FileTree.content?_insert_of_ne hlookup hne

end Write

end FileSystem

end RubyLint

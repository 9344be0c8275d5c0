import RubyLint.Config
import RubyLint.Proofs.FileOutline
import Mathlib.Tactic

/-!
# Paths and their texts

The text of a path tells the path: read again, it gives the same root and components.  This needs
components that can be told apart in the text, so none may be empty, a single dot or hold a slash.
Paths that are read have such components, and so have the paths below a directory as long as the
names in the tree are such names.
-/

namespace RubyLint

namespace Path

/-- What can stand between two slashes, other than a dot. -/
def IsName (name : String) : Prop :=
  name ≠ "" ∧ name ≠ "." ∧ '/' ∉ name.toList

instance (name : String) : Decidable (IsName name) :=
  inferInstanceAs (Decidable (_ ∧ _ ∧ _))

structure Proper (path : Path) : Prop where
  root : path.root = "" ∨ path.root = "/" ∨ path.root = "//"
  components : ∀ name ∈ path.components, IsName name

variable {path : Path} {names : List String}

theorem pieces_eq_splitOn (text : List Char) : pieces text = text.splitOn '/' := by
  induction text with
  | nil => rfl
  | cons c rest ih =>
      rw [pieces, ih, List.splitOn_cons_eq_if_modifyHead]
      split
      · rfl
      · cases hrest : rest.splitOn '/' with
        | nil => exact absurd hrest (List.splitOn_ne_nil '/' rest)
        | cons piece more => rfl

theorem slash_notMem_of_mem_pieces {text piece : List Char} (hpiece : piece ∈ pieces text) :
    '/' ∉ piece := by
  induction text generalizing piece with
  | nil =>
      obtain rfl := List.mem_singleton.mp hpiece
      exact List.not_mem_nil
  | cons c rest ih =>
      rw [pieces] at hpiece
      split at hpiece
      next =>
        rcases List.mem_cons.mp hpiece with rfl | hpiece
        · exact List.not_mem_nil
        · exact ih hpiece
      next hc =>
        have hc' : '/' ≠ c := fun hslash => hc (by simp [← hslash])
        split at hpiece
        next =>
          obtain rfl := List.mem_singleton.mp hpiece
          simpa using hc'
        next first more hrest =>
          rcases List.mem_cons.mp hpiece with rfl | hpiece
          · have hfirst := ih (hrest ▸ List.mem_cons_self)
            simp [hc', hfirst]
          · exact ih (hrest ▸ List.mem_cons_of_mem first hpiece)

theorem rootOf_cases (text : List Char) :
    rootOf text = "" ∨ rootOf text = "/" ∨ rootOf text = "//" := by
  unfold rootOf
  split <;> simp

/-- A path that was read is proper. -/
theorem proper_ofString (text : String) : (ofString text).Proper := by
  refine ⟨rootOf_cases text.toList, ?_⟩
  intro name hname
  obtain ⟨piece, hpiece, rfl⟩ := List.mem_map.mp hname
  obtain ⟨hpiece, hkept⟩ := List.mem_filter.mp hpiece
  simp only [Bool.and_eq_true, bne_iff_ne] at hkept
  refine ⟨?_, ?_, ?_⟩
  · intro hempty
    exact hkept.1 (by simpa using hempty)
  · intro hdot
    exact hkept.2 (by simpa using congrArg String.toList hdot)
  · rw [String.toList_ofList]
    exact slash_notMem_of_mem_pieces hpiece

theorem Proper.descend (hpath : path.Proper) (hnames : ∀ name ∈ names, IsName name) :
    (path.descend names).Proper := by
  refine ⟨hpath.root, ?_⟩
  intro name hname
  rcases List.mem_append.mp hname with hname | hname
  · exact hpath.components name hname
  · exact hnames name hname

/-! ## Reading a written path -/

section Reading

variable {first : String} {rest : List String}

theorem pieces_intercalate (hnames : ∀ name ∈ first :: rest, IsName name) :
    pieces (String.intercalate "/" (first :: rest)).toList =
      (first :: rest).map String.toList := by
  rw [pieces_eq_splitOn, String.toList_intercalate]
  refine List.splitOn_intercalate '/' ?_ (by simp)
  intro piece hpiece
  obtain ⟨name, hname, rfl⟩ := List.mem_map.mp hpiece
  exact (hnames name hname).2.2

/-- Components begin with a character that belongs to no root. -/
theorem exists_toList_intercalate_eq_cons (hfirst : IsName first) :
    ∃ c more, c ≠ '/' ∧ (String.intercalate "/" (first :: rest)).toList = c :: more := by
  obtain ⟨hne, -, hslash⟩ := hfirst
  cases hletters : first.toList with
  | nil => exact absurd (by simpa using hletters) hne
  | cons c letters =>
      have hc : c ≠ '/' := by
        rintro rfl
        simp [hletters] at hslash
      cases rest with
      | nil => exact ⟨c, letters, hc, by simp [hletters]⟩
      | cons second rest =>
          rw [String.intercalate_cons_cons]
          exact ⟨c, _, hc, by simp [hletters]; rfl⟩

variable {root : String} (hroot : root = "" ∨ root = "/" ∨ root = "//")

include hroot

theorem rootOf_append {c : Char} {more : List Char} (hc : c ≠ '/') :
    rootOf (root.toList ++ c :: more) = root := by
  rcases hroot with rfl | rfl | rfl
  all_goals simp [rootOf, hc]

/-- The slashes of a root leave only empty pieces. -/
theorem filter_pieces_append (text : List Char) :
    (pieces (root.toList ++ text)).filter (fun piece => piece != [] && piece != ['.']) =
      (pieces text).filter fun piece => piece != [] && piece != ['.'] := by
  rcases hroot with rfl | rfl | rfl
  all_goals simp [pieces]

end Reading

theorem ofString_toString (hpath : path.Proper) : ofString (toString path) = path := by
  obtain ⟨root, components⟩ := path
  obtain ⟨hroot, hnames⟩ := hpath
  cases components with
  | nil =>
      rcases hroot with rfl | rfl | rfl
      all_goals decide
  | cons first rest =>
      obtain ⟨c, more, hc, hletters⟩ :=
        @exists_toList_intercalate_eq_cons first rest (hnames first List.mem_cons_self)
      have htext : (toString (⟨root, first :: rest⟩ : Path)).toList = root.toList ++ c :: more := by
        show (Path.toString _).toList = _
        rw [Path.toString, if_neg, String.toList_append, hletters]
        intro hempty
        have hnil := congrArg String.toList (beq_iff_eq.mp hempty)
        simp [hletters] at hnil
      have hkept : ((first :: rest).map String.toList).filter
          (fun piece => piece != [] && piece != ['.']) = (first :: rest).map String.toList := by
        rw [List.filter_eq_self]
        intro piece hpiece
        obtain ⟨name, hname, rfl⟩ := List.mem_map.mp hpiece
        obtain ⟨hne, hdot, -⟩ := hnames name hname
        have hdot' : name.toList ≠ ['.'] := fun hletters => hdot (String.toList_inj.mp hletters)
        simp [hne, hdot']
      rw [ofString, htext, rootOf_append hroot hc, filter_pieces_append hroot, ← hletters,
        pieces_intercalate hnames, hkept, List.map_map]
      simp

theorem toString_singleton {name : String} (hname : name ≠ "") :
    toString (⟨"", [name]⟩ : Path) = name := by
  show Path.toString _ = name
  simp [Path.toString, hname]

theorem ofString_of_isName {name : String} (hname : IsName name) :
    ofString name = ⟨"", [name]⟩ := by
  have hread := @ofString_toString ⟨"", [name]⟩ ⟨.inl rfl, by simpa using hname⟩
  rwa [toString_singleton hname.1] at hread

theorem Proper.eq_of_toString_eq
    {other : Path} (hpath : path.Proper) (hother : other.Proper)
    (htext : toString path = toString other) : path = other := by
  rw [← ofString_toString hpath, htext, ofString_toString hother]

end Path

/-! ## Paths below a directory -/

namespace FileTree

/-- A path can hold the name of every entry. -/
def ProperNames (tree : FileTree) : Prop :=
  ∀ found ∈ tree.descendants, ∀ name ∈ found.1, Path.IsName name

instance (tree : FileTree) : Decidable tree.ProperNames :=
  inferInstanceAs (Decidable (∀ found ∈ tree.descendants, ∀ name ∈ found.1, Path.IsName name))

variable {tree found : FileTree}

theorem cons_mem_entryDescendants
    {entries : List (String × FileTree)} {name : String} {below : List String × FileTree}
    (hentry : (name, tree) ∈ entries) (hbelow : below ∈ tree.descendants) :
    (name :: below.1, below.2) ∈ entryDescendants entries := by
  induction entries with
  | nil => cases hentry
  | cons entry rest ih =>
      obtain ⟨other, tree'⟩ := entry
      rw [entryDescendants, List.mem_append]
      rcases List.mem_cons.mp hentry with hentry | hentry
      · cases hentry
        exact .inl (List.mem_cons_of_mem _ (List.mem_map.mpr ⟨below, hbelow, rfl⟩))
      · exact .inr (ih hentry)

theorem ProperNames.lookup
    {components : List String} (htree : tree.ProperNames)
    (hfound : tree.lookup components = some found) : found.ProperNames := by
  induction components generalizing tree with
  | nil =>
      cases hfound
      exact htree
  | cons name rest ih =>
      obtain ⟨entries, next, rfl, hnext, hfound⟩ := exists_directory_of_lookup hfound
      refine ih ?_ hfound
      intro below hbelow inner hinner
      have hentry : (name, next) ∈ entries := by
        obtain ⟨before, after, rfl, -⟩ := List.lookup_eq_some_iff.mp hnext
        simp
      exact htree _ (cons_mem_entryDescendants hentry hbelow) inner
        (List.mem_cons_of_mem name hinner)

end FileTree

namespace FileSystem

variable {files : FileSystem} {path : Path} {place : List String} {tree : FileTree}

theorem get_eq_ok_iff :
    files.get path = .ok tree ↔ ∃ place, files.find path = .ok (place, tree) := by
  unfold get
  rw [Outcome.map_eq_ok_iff]
  constructor
  · rintro ⟨⟨place, found⟩, hfind, rfl⟩
    exact ⟨place, hfind⟩
  · rintro ⟨place, hfind⟩
    exact ⟨(place, tree), hfind, rfl⟩

theorem get?_eq_ok_some_iff : files.get? path = .ok (some tree) ↔ files.get path = .ok tree := by
  unfold get?
  cases files.get path with
  | ok below => simp
  | error e => cases e <;> simp

theorem properNames_of_find
    (hroot : files.root.ProperNames) (hfind : files.find path = .ok (place, tree)) :
    tree.ProperNames :=
  hroot.lookup (find_eq_ok_iff.mp hfind).2

theorem isName_of_mem_rubyNames
    {names : List String} {name : String} (htree : tree.ProperNames)
    (hnames : names ∈ rubyNames (files.walk place tree)) (hname : name ∈ names) :
    Path.IsName name := by
  rw [rubyNames, List.mem_mergeSort] at hnames
  obtain ⟨below, hbelow, rfl⟩ := List.mem_map.mp hnames
  exact htree below (List.mem_of_mem_filter (List.mem_of_mem_filter hbelow)) name hname

/-- Whether the working directory holds an entry cannot be told if the name is beyond the limit. -/
theorem get?_of_isTooLong
    {entries : List (String × FileTree)} {name : String}
    (hplace : files.root.lookup files.workingDirectory = some (.directory entries))
    (hsearch : (files.access files.workingDirectory).search = true) (hname : Path.IsName name)
    (hnull : '\x00' ∉ name.toList) (hlong : isTooLong name = true) :
    files.get? (Path.ofString name) = .error .nameTooLong := by
  have hdots : name ≠ ".." := by
    rintro rfl
    exact absurd hlong (by decide)
  have hlocate : files.locate (Path.ofString name) = .error .nameTooLong := by
    rw [locate, Path.ofString_of_isName hname, Path.toString_singleton hname.1]
    simp [hnull, Path.steps, Path.isAbsolute, step, hplace, hsearch, hname.2.1, hdots, hlong]
  rw [get?, get, find, hlocate]
  rfl

end FileSystem

namespace Config

variable [StackRoom] {files : FileSystem} {path target : Path}

/-- The paths that `path` stands for; none if that cannot be told. -/
def expansion (files : FileSystem) (path : Path) : List Path :=
  (expand files path).toOption.getD []

theorem expand_eq {targets : List Path} (hexpand : expand files path = .ok targets) :
    expand files path = .ok (expansion files path) := by
  rw [expansion, hexpand]
  rfl

section Collect

variable {config : Config} {paths : List Path}

theorem collect_eq (hexpand : ∀ path ∈ paths, ∃ targets, expand files path = .ok targets) :
    config.collect files paths =
      .ok ((paths.flatMap (expansion files)).filter fun path => !config.excludes path) := by
  have hexpand' : ∀ path ∈ paths, expand files path = .ok (expansion files path) := by
    intro path hpath
    obtain ⟨targets, htargets⟩ := hexpand path hpath
    exact expand_eq htargets
  rw [collect, Outcome.mapM_eq_ok hexpand', List.flatMap]
  rfl

theorem exists_collect_eq_error (hfails : ∃ path ∈ paths, ∃ e, expand files path = .error e) :
    ∃ path ∈ paths, ∃ e, expand files path = .error e ∧ config.collect files paths = .error e := by
  obtain ⟨path, hpath, e, he, hmap⟩ := Outcome.exists_mapM_eq_error hfails
  refine ⟨path, hpath, e, he, ?_⟩
  rw [collect, hmap]
  rfl

end Collect

theorem expand_of_file
    {content : List UInt8} (hpath : files.get path = .ok (.file content)) :
    expand files path = .ok [path] := by
  unfold expand
  rw [FileSystem.get?_eq_ok_some_iff.mpr hpath]
  rfl

theorem expand_of_directory
    {place : List String} {entries : List (String × FileTree)}
    (hfind : files.find path = .ok (place, .directory entries)) :
    expand files path =
      match (files.walk place (.directory entries)).findSome? (FileSystem.walkError? path) with
      | some e => .error e
      | none => .ok ((FileSystem.rubyNames (files.walk place (.directory entries))).map
          path.descend) := by
  unfold expand FileSystem.rubyPaths
  rw [FileSystem.get?_eq_ok_some_iff.mpr (FileSystem.get_eq_ok_iff.mpr ⟨place, hfind⟩), hfind]
  rfl

theorem proper_of_mem_expand
    {targets : List Path} (hfiles : files.root.ProperNames) (hpath : path.Proper)
    (hexpand : expand files path = .ok targets) (htarget : target ∈ targets) : target.Proper := by
  unfold expand at hexpand
  obtain ⟨found, hfound, hexpand⟩ := Outcome.bind_eq_ok_iff.mp hexpand
  rcases found with _ | _ | entries
  · cases hexpand
    obtain rfl := List.mem_singleton.mp htarget
    exact hpath
  · cases hexpand
    obtain rfl := List.mem_singleton.mp htarget
    exact hpath
  · obtain ⟨place, hfind⟩ :=
      FileSystem.get_eq_ok_iff.mp (FileSystem.get?_eq_ok_some_iff.mp hfound)
    simp only [FileSystem.rubyPaths, hfind, bind, Except.bind] at hexpand
    split at hexpand
    next => cases hexpand
    next =>
      cases hexpand
      obtain ⟨names, hnames, rfl⟩ := List.mem_map.mp htarget
      have htree := FileSystem.properNames_of_find hfiles hfind
      exact hpath.descend fun name => FileSystem.isName_of_mem_rubyNames htree hnames

end Config

end RubyLint

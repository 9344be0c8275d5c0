import RubyLint.Proofs.PathNames
import RubyLint.Proofs.StableSort
import Mathlib.Data.String.Basic
import Mathlib.Tactic

/-!
# What a directory stands for among the path arguments

In a directory of a file system no two entries have the same name.  So the names that lead to
something below a directory lead to nothing else: what is listed below it is what can be looked up
there, and nothing is listed twice.  A directory among the path arguments stands for all of this
that is called like a Ruby file and that a walk comes to, in the order of the components.
Directories are not told apart from files here, so the arguments stand for files alone exactly when
no directory below them is called like a Ruby file, or when each such directory is excluded.  A walk
leaves out what lies in directories that cannot be read.
-/

namespace RubyLint

namespace FileTree

/-- A path can lead through an entry with this name. -/
def Reachable (name : String) : Prop :=
  name ≠ "." ∧ name ≠ ".." ∧ '\x00' ∉ name.toList ∧ FileSystem.isTooLong name = false

instance (name : String) : Decidable (Reachable name) :=
  inferInstanceAs (Decidable (_ ∧ _ ∧ _ ∧ _))

/-- A tree as a file system holds it. -/
structure Sound (tree : FileTree) : Prop where
  reachable : ∀ found ∈ tree.descendants, ∀ name ∈ found.1, Reachable name
  distinct : (tree.entries.map (·.1)).Nodup
  distinct_below : ∀ found ∈ tree.descendants, (found.2.entries.map (·.1)).Nodup

variable {tree found : FileTree} {names : List String}

/-! ## Names and what they lead to -/

theorem sizeOf_lt_of_mem_entries {entry : String × FileTree} (hentry : entry ∈ tree.entries) :
    sizeOf entry.2 < sizeOf tree := by
  cases tree with
  | file content => cases hentry
  | directory entries =>
      have hlist : sizeOf entry < sizeOf entries := List.sizeOf_lt_of_mem hentry
      obtain ⟨name, below⟩ := entry
      simp only [Prod.mk.sizeOf_spec] at hlist
      simp only [directory.sizeOf_spec]
      omega

/-- What holds of a tree as soon as it holds of its entries holds of every tree. -/
theorem entryInduction {motive : FileTree → Prop}
    (step : ∀ tree, (∀ entry ∈ tree.entries, motive entry.2) → motive tree)
    (tree : FileTree) : motive tree :=
  step tree fun entry hentry =>
    have := sizeOf_lt_of_mem_entries hentry
    entryInduction step entry.2
termination_by sizeOf tree

theorem descendants_eq_flatMap (tree : FileTree) :
    tree.descendants = tree.entries.flatMap fun entry =>
      ([entry.1], entry.2) ::
        entry.2.descendants.map fun below => (entry.1 :: below.1, below.2) := by
  cases tree with
  | file content => rfl
  | directory entries =>
      rw [descendants, FileTree.entries]
      induction entries with
      | nil => rfl
      | cons entry rest ih =>
          obtain ⟨name, below⟩ := entry
          rw [entryDescendants, ih, List.flatMap_cons]

theorem cons_mem_descendants_iff {name : String} :
    (name :: names, found) ∈ tree.descendants ↔
      ∃ below, (name, below) ∈ tree.entries ∧
        (names = [] ∧ below = found ∨ (names, found) ∈ below.descendants) := by
  rw [descendants_eq_flatMap, List.mem_flatMap]
  constructor
  · rintro ⟨⟨name', below⟩, hentry, hfound⟩
    rcases List.mem_cons.mp hfound with hself | hbelow
    · cases hself
      exact ⟨below, hentry, .inl ⟨rfl, rfl⟩⟩
    · obtain ⟨inner, hinner, hsame⟩ := List.mem_map.mp hbelow
      cases hsame
      exact ⟨below, hentry, .inr hinner⟩
  · rintro ⟨below, hentry, ⟨rfl, rfl⟩ | hbelow⟩
    · exact ⟨_, hentry, List.mem_cons_self⟩
    · exact ⟨_, hentry, List.mem_cons_of_mem _ (List.mem_map_of_mem hbelow)⟩

theorem nil_notMem_descendants : ([], found) ∉ tree.descendants := by
  rw [descendants_eq_flatMap]
  simp

theorem lookup_eq_some_iff_mem
    {entries : List (String × FileTree)} {name : String}
    (hdistinct : (entries.map (·.1)).Nodup) :
    entries.lookup name = some found ↔ (name, found) ∈ entries := by
  constructor
  · intro hfound
    obtain ⟨before, after, rfl, -⟩ := List.lookup_eq_some_iff.mp hfound
    simp
  · intro hentry
    obtain ⟨before, after, rfl⟩ := List.append_of_mem hentry
    refine List.lookup_eq_some_iff.mpr ⟨before, after, rfl, ?_⟩
    intro entry hbefore
    rw [List.map_append, List.map_cons] at hdistinct
    have hnot := (List.nodup_append.mp hdistinct).2.2 entry.1 (List.mem_map_of_mem hbefore) name
      List.mem_cons_self
    simpa using Ne.symm hnot

theorem Sound.of_mem_entries
    {entry : String × FileTree} (htree : tree.Sound) (hentry : entry ∈ tree.entries) :
    entry.2.Sound := by
  obtain ⟨name, below⟩ := entry
  have hlift : ∀ found ∈ below.descendants, (name :: found.1, found.2) ∈ tree.descendants :=
    fun found hfound => cons_mem_descendants_iff.mpr ⟨below, hentry, .inr hfound⟩
  constructor
  · intro found hfound inner hinner
    exact htree.reachable _ (hlift found hfound) inner (List.mem_cons_of_mem name hinner)
  · exact htree.distinct_below _
      (cons_mem_descendants_iff.mpr ⟨below, hentry, .inl ⟨rfl, rfl⟩⟩)
  · intro found hfound
    exact htree.distinct_below (name :: found.1, found.2) (hlift found hfound)

/-- What is listed below a directory is what can be looked up there. -/
theorem Sound.mem_descendants_iff (htree : tree.Sound) :
    (names, found) ∈ tree.descendants ↔ names ≠ [] ∧ tree.lookup names = some found := by
  induction names generalizing tree with
  | nil => simp [nil_notMem_descendants]
  | cons name rest ih =>
      rw [cons_mem_descendants_iff, lookup, Option.bind_eq_some_iff]
      simp only [lookup_eq_some_iff_mem htree.distinct, ne_eq, reduceCtorEq, not_false_eq_true,
        true_and]
      refine exists_congr fun below => and_congr_right fun hentry => ?_
      rw [ih (htree.of_mem_entries hentry)]
      cases rest with
      | nil => simp [lookup]
      | cons next rest => simp

/-- Nothing is listed twice. -/
theorem Sound.nodup_names (htree : tree.Sound) : (tree.descendants.map (·.1)).Nodup := by
  induction tree using entryInduction with
  | step tree ih =>
      rw [descendants_eq_flatMap, List.map_flatMap, List.nodup_flatMap]
      constructor
      · intro entry hentry
        have hbelow := ih entry hentry (htree.of_mem_entries hentry)
        rw [List.map_cons, List.map_map, List.nodup_cons]
        constructor
        · intro hagain
          obtain ⟨⟨names, found⟩, hfound, hsame⟩ := List.mem_map.mp hagain
          obtain rfl : names = [] := by simpa using hsame
          exact nil_notMem_descendants hfound
        · have hcons := hbelow.map (List.cons_injective (a := entry.1))
          rwa [List.map_map] at hcons
      · -- the lists of two entries differ in the first name already
        have hfirst : ∀ (entry : String × FileTree) (names : List String),
            names ∈ ((([entry.1], entry.2) :: entry.2.descendants.map fun below =>
              (entry.1 :: below.1, below.2)).map (·.1)) → names.head? = some entry.1 := by
          intro entry names hnames
          simp only [List.map_cons, List.map_map, List.mem_cons, List.mem_map] at hnames
          rcases hnames with rfl | ⟨below, -, rfl⟩ <;> rfl
        refine (List.pairwise_map.mp htree.distinct).imp ?_
        intro entry entry' hne names hnames hnames'
        have hsame := (hfirst entry names hnames).symm.trans (hfirst entry' names hnames')
        exact hne (Option.some.inj hsame)

theorem lookup_append (tree : FileTree) (names more : List String) :
    tree.lookup (names ++ more) = (tree.lookup names).bind (lookup · more) := by
  induction names generalizing tree with
  | nil => rfl
  | cons name rest ih =>
      rw [List.cons_append, lookup, lookup, Option.bind_assoc]
      exact congrArg _ (funext ih)

theorem Sound.lookup (htree : tree.Sound) (hfound : tree.lookup names = some found) :
    found.Sound := by
  induction names generalizing tree with
  | nil =>
      cases hfound
      exact htree
  | cons name rest ih =>
      obtain ⟨entries, below, rfl, hentry, hfound⟩ := exists_directory_of_lookup hfound
      have hmem := (lookup_eq_some_iff_mem htree.distinct).mp hentry
      exact ih (htree.of_mem_entries hmem) hfound

theorem Sound.reachable_of_lookup
    (htree : tree.Sound) (hne : names ≠ []) (hfound : tree.lookup names = some found) :
    ∀ name ∈ names, Reachable name :=
  htree.reachable _ (htree.mem_descendants_iff.mpr ⟨hne, hfound⟩)

end FileTree

theorem Path.mem_toString_iff
    {path : Path} {c : Char} (hdot : c ≠ '.') (hslash : c ≠ '/') :
    c ∈ (toString path).toList ↔
      c ∈ path.root.toList ∨ ∃ name ∈ path.components, c ∈ name.toList := by
  have hnames : ∀ names : List String, c ∈ (String.intercalate "/" names).toList ↔
      ∃ name ∈ names, c ∈ name.toList := by
    intro names
    induction names with
    | nil => simp
    | cons name rest ih =>
        cases rest with
        | nil => simp
        | cons next rest =>
            rw [String.intercalate_cons_cons, String.toList_append, String.toList_append,
              List.mem_append, List.mem_append, ih]
            simp [hslash]
  have htext : c ∈ (path.root ++ String.intercalate "/" path.components).toList ↔
      c ∈ path.root.toList ∨ ∃ name ∈ path.components, c ∈ name.toList := by
    rw [String.toList_append, List.mem_append, hnames]
  show c ∈ (Path.toString path).toList ↔ _
  rw [← htext, Path.toString]
  split
  next hempty =>
    rw [beq_iff_eq.mp hempty]
    simpa using hdot
  next => rfl

namespace FileSystem

variable {files : FileSystem} {tree found : FileTree} {path : Path} {place names : List String}

/-! ## The names of Ruby files -/

theorem componentsPrecede_iff (a b : List String) : componentsPrecede a b = true ↔ a ≤ b := by
  rw [le_iff_lt_or_eq]
  induction a generalizing b with
  | nil =>
      cases b with
      | nil => simp [componentsPrecede]
      | cons first' rest' => simp [componentsPrecede]
  | cons first rest ih =>
      cases b with
      | nil => simp [componentsPrecede]
      | cons first' rest' =>
          simp only [componentsPrecede, Bool.or_eq_true, Bool.and_eq_true, decide_eq_true_eq,
            beq_iff_eq, ih, List.cons_lt_cons_iff, List.cons.injEq]
          tauto

theorem mem_walk_iff (htree : tree.Sound) :
    (names, found) ∈ files.walk place tree ↔
      names ≠ [] ∧ tree.lookup names = some found ∧ files.reaches place names = true := by
  rw [walk, List.mem_filter, htree.mem_descendants_iff, and_assoc]

theorem mem_rubyNames_iff (htree : tree.Sound) :
    names ∈ rubyNames (files.walk place tree) ↔
      ∃ found, names ≠ [] ∧ tree.lookup names = some found ∧ files.reaches place names = true ∧
        ".rb".toList <:+ (names.getLast?.getD "").toList := by
  simp only [rubyNames, List.mem_mergeSort, List.mem_map, List.mem_filter, Prod.exists,
    List.isSuffixOf_iff_suffix, mem_walk_iff htree]
  constructor
  · rintro ⟨names, found, ⟨⟨hne, hfound, hreaches⟩, hruby⟩, rfl⟩
    exact ⟨found, hne, hfound, hreaches, hruby⟩
  · rintro ⟨found, hne, hfound, hreaches, hruby⟩
    exact ⟨names, found, ⟨⟨hne, hfound, hreaches⟩, hruby⟩, rfl⟩

theorem pairwise_rubyNames (htree : tree.Sound) :
    (rubyNames (files.walk place tree)).Pairwise (· < ·) := by
  have hordered : (rubyNames (files.walk place tree)).Pairwise (· ≤ ·) :=
    @StableSort.pairwise_mergeSort _ _ _ id _ componentsPrecede_iff _
  have hnodup : (rubyNames (files.walk place tree)).Nodup := by
    refine (List.mergeSort_perm _ _).nodup_iff.mpr ?_
    exact htree.nodup_names.sublist ((List.filter_sublist.trans List.filter_sublist).map _)
  exact (hordered.and hnodup).imp fun hab => lt_of_le_of_ne hab.1 hab.2

/-! ## Paths below a directory -/

/-- The file system as one sees it who may do everything. -/
def unlocked (files : FileSystem) : FileSystem := { files with access := fun _ => .full }

theorem step_eq_ok_iff {next : List String} {name : String} :
    files.step place name = .ok next ↔
      ∃ entries, files.root.lookup place = some (.directory entries) ∧
        (files.access place).search = true ∧
        (name = "." ∧ place = next ∨ name ≠ "." ∧ name = ".." ∧ place.dropLast = next ∨
          name ≠ "." ∧ name ≠ ".." ∧ isTooLong name = false ∧
            (entries.lookup name).isSome = true ∧ place ++ [name] = next) := by
  unfold step
  cases files.root.lookup place with
  | none => simp
  | some tree =>
      cases tree with
      | file content => simp
      | directory entries =>
          by_cases hsearch : (files.access place).search = true
          · by_cases hdot : name = "."
            · simp [hsearch, hdot]
            · by_cases hdots : name = ".."
              · simp [hsearch, hdots]
              · cases isTooLong name with
                | true => simp [hsearch, hdot, hdots]
                | false =>
                    simp only [exists_eq_left', Option.some.injEq, FileTree.directory.injEq]
                    generalize (entries.lookup name).isSome = known
                    cases known <;> simp [hsearch, hdot, hdots]
          · simp [hsearch]

theorem step_unlocked
    {next : List String} {name : String} (hstep : files.step place name = .ok next) :
    files.unlocked.step place name = .ok next := by
  obtain ⟨entries, hentries, -, hname⟩ := step_eq_ok_iff.mp hstep
  exact step_eq_ok_iff.mpr ⟨entries, hentries, rfl, hname⟩

theorem foldlM_step_of_lookup
    (hnames : ∀ name ∈ names, FileTree.Reachable name)
    (hfound : files.root.lookup (place ++ names) = some found) :
    names.foldlM files.unlocked.step place = .ok (place ++ names) := by
  induction names generalizing place with
  | nil =>
      rw [List.append_nil]
      rfl
  | cons name rest ih =>
      obtain ⟨⟨hdot, hdots, -, hshort⟩, hrest⟩ := List.forall_mem_cons.mp hnames
      have hbelow := hfound
      rw [FileTree.lookup_append] at hbelow
      obtain ⟨directory, hplace, hbelow⟩ := Option.bind_eq_some_iff.mp hbelow
      obtain ⟨entries, below, rfl, hentry, -⟩ := FileTree.exists_directory_of_lookup hbelow
      have hstep : files.unlocked.step place name = .ok (place ++ [name]) :=
        step_eq_ok_iff.mpr ⟨entries, hplace, rfl,
          .inr (.inr ⟨hdot, hdots, hshort, by simp [hentry], rfl⟩)⟩
      have happend : place ++ name :: rest = place ++ [name] ++ rest := by simp
      rw [happend] at hfound ⊢
      exact Outcome.bind_eq_ok_iff.mpr ⟨place ++ [name], hstep, ih hrest hfound⟩

/-- A path that can be followed leads to the same place along its components alone. -/
theorem foldlM_components_of_locate (hplace : files.locate path = .ok place) :
    path.components.foldlM files.unlocked.step
        (if path.isAbsolute then [] else files.workingDirectory) = .ok place ∧
      '\x00' ∉ (toString path).toList := by
  unfold locate at hplace
  split at hplace
  next => cases hplace
  next hnull =>
    split at hplace
    next => cases hplace
    next =>
      refine ⟨?_, by simpa using hnull⟩
      have hsteps : path.steps.foldlM files.unlocked.step
          (if path.isAbsolute then [] else files.workingDirectory) = .ok place :=
        Outcome.foldlM_eq_ok_of_imp (fun _ _ _ => step_unlocked) hplace
      by_cases hempty : (path.components.isEmpty && !path.isAbsolute) = true
      · rw [Path.steps, if_pos hempty] at hsteps
        -- the one step that a dot takes leads nowhere else
        simp only [Bool.and_eq_true, List.isEmpty_iff, Bool.not_eq_true'] at hempty
        rw [hempty.2] at hsteps ⊢
        obtain ⟨next, hstep, hend⟩ := Outcome.bind_eq_ok_iff.mp hsteps
        cases hend
        obtain ⟨-, -, -, ⟨-, rfl⟩ | ⟨hdot, -⟩ | ⟨hdot, -⟩⟩ := step_eq_ok_iff.mp hstep
        · rw [hempty.1]
          rfl
        · exact absurd rfl hdot
        · exact absurd rfl hdot
      · rwa [Path.steps, if_neg hempty] at hsteps

theorem get_unlocked (hpath : files.get path = .ok tree) :
    files.unlocked.get path = .ok tree := by
  obtain ⟨place, hfind⟩ := get_eq_ok_iff.mp hpath
  obtain ⟨hplace, hlookup⟩ := find_eq_ok_iff.mp hfind
  refine get_eq_ok_iff.mpr ⟨place, find_eq_ok_iff.mpr ⟨?_, hlookup⟩⟩
  unfold locate at hplace ⊢
  split at hplace
  next => cases hplace
  next hnull =>
    rw [if_neg hnull]
    split at hplace
    next => cases hplace
    next hshort =>
      rw [if_neg hshort]
      exact Outcome.foldlM_eq_ok_of_imp (fun place name next => step_unlocked) hplace

/-- Below a directory a path leads to what the names lead to, unless it is too long. -/
theorem get_descend
    (hnames : ∀ name ∈ names, FileTree.Reachable name) (hne : names ≠ [])
    (htree : files.find path = .ok (place, tree)) (hfound : tree.lookup names = some found) :
    files.unlocked.get (path.descend names) =
      if pathLimit ≤ (Text.bytes (toString (path.descend names))).length then .error .nameTooLong
      else .ok found := by
  obtain ⟨hplace, hlookup⟩ := find_eq_ok_iff.mp htree
  obtain ⟨hcomponents, hnull⟩ := foldlM_components_of_locate hplace
  have hfound' : files.root.lookup (place ++ names) = some found := by
    rw [FileTree.lookup_append, hlookup]
    exact hfound
  have hnull' : ¬ (toString (path.descend names)).toList.contains '\x00' = true := by
    have hclear : ∀ other : Path, '\x00' ∈ (toString other).toList ↔
        '\x00' ∈ other.root.toList ∨ ∃ name ∈ other.components, '\x00' ∈ name.toList :=
      fun other => Path.mem_toString_iff (by decide) (by decide)
    rw [hclear] at hnull
    simp only [List.contains_iff_mem, hclear, Path.descend, List.mem_append]
    rintro (hmem | ⟨name, hname | hname, hmem⟩)
    · exact hnull (.inl hmem)
    · exact hnull (.inr ⟨name, hname, hmem⟩)
    · exact (hnames name hname).2.2.1 hmem
  have hsteps : (path.descend names).steps = path.components ++ names := by
    simp [Path.steps, Path.descend, hne]
  have hfollow : (path.descend names).steps.foldlM files.unlocked.step
      (if (path.descend names).isAbsolute then [] else files.workingDirectory) =
        .ok (place ++ names) := by
    rw [hsteps, List.foldlM_append]
    exact Outcome.bind_eq_ok_iff.mpr ⟨place, hcomponents, foldlM_step_of_lookup hnames hfound'⟩
  by_cases hlong : pathLimit ≤ (Text.bytes (toString (path.descend names))).length
  · rw [if_pos hlong, get, find, locate, if_neg hnull', if_pos hlong]
    rfl
  · rw [if_neg hlong, get_eq_ok_iff]
    refine ⟨place ++ names, find_eq_ok_iff.mpr ⟨?_, hfound'⟩⟩
    rw [locate, if_neg hnull', if_neg hlong]
    exact hfollow

/-- A walk below `path` comes to `target`. -/
def Reaches (files : FileSystem) (path target : Path) : Prop :=
  ∃ place tree names, files.find path = .ok (place, tree) ∧ target = path.descend names ∧
    files.reaches place names = true

end FileSystem

/-! ## Listings -/

namespace Config

variable {config : Config} {files : FileSystem} {tree found found' : FileTree} {path target : Path}
  {paths targets : List Path}

/-- A pattern matches the path or its last component. -/
def Excluded (config : Config) (path : Path) : Prop :=
  ∃ pattern ∈ config.settings.exclude,
    Glob.isMatch pattern (toString path) = true ∨ Glob.isMatch pattern path.name = true

/-- `found` lies at `target` below the directory `path`, is called like a Ruby file and is not
excluded. -/
structure Selects (config : Config) (files : FileSystem) (path target : Path) (found : FileTree) :
    Prop where
  below : ∃ place tree names, files.find path = .ok (place, tree) ∧ names ≠ [] ∧
    tree.lookup names = some found ∧ target = path.descend names
  ruby : ".rb".toList <:+ target.name.toList
  kept : ¬ config.Excluded target

/-- What `path` stands for, where of all below a directory only that is listed which `Counts`. -/
inductive Expands (config : Config) (files : FileSystem)
    (Counts : Path → Path → FileTree → Prop) : Path → List Path → Prop
  | directory {path : Path} {entries : List (String × FileTree)} {targets : List Path}
      (hpath : files.get path = .ok (.directory entries))
      (hmem : ∀ target, target ∈ targets ↔
        ∃ found, config.Selects files path target found ∧ Counts path target found)
      (hincreasing : targets.Pairwise fun a b => a.components < b.components) :
      Expands config files Counts path targets
  | file {path : Path} {content : List UInt8} (hpath : files.get path = .ok (.file content))
      (hkept : ¬ config.Excluded path) : Expands config files Counts path [path]
  | excludedFile {path : Path} {content : List UInt8}
      (hpath : files.get path = .ok (.file content)) (hexcluded : config.Excluded path) :
      Expands config files Counts path []

/-- All that a walk comes to is listed. -/
def ExpandsToReached (config : Config) (files : FileSystem) : Path → List Path → Prop :=
  config.Expands files fun path target _ => files.Reaches path target

/-- The files are listed. -/
def ExpandsToFiles (config : Config) (files : FileSystem) : Path → List Path → Prop :=
  config.Expands files fun _ _ found => found.isFile = true

/-- A walk below `path` comes to a directory that is called like a Ruby file and is not excluded. -/
def HoldsRubyDirectory (config : Config) (files : FileSystem) (path : Path) : Prop :=
  ∃ target entries, config.Selects files path target (.directory entries) ∧
    files.Reaches path target

/-- Below `path` lies a file that is called like a Ruby file and is not excluded, and no walk comes
to it. -/
def HidesRubyFile (config : Config) (files : FileSystem) (path : Path) : Prop :=
  ∃ target content, config.Selects files path target (.file content) ∧
    ¬ files.Reaches path target

/-- A walk below `path` comes to a directory that lies too deep or has too long a path. -/
def TooDeep [StackRoom] (files : FileSystem) (path : Path) : Prop :=
  ∃ place tree names entries, files.find path = .ok (place, tree) ∧ names ≠ [] ∧
    tree.lookup names = some (.directory entries) ∧ files.reaches place names = true ∧
    (StackRoom.directories < names.length ∨
      FileSystem.pathLimit ≤ (Text.bytes (toString (path.descend names))).length)

theorem excludes_eq_true_iff : config.excludes path = true ↔ config.Excluded path := by
  simp [excludes, Excluded]

theorem not_excludes_iff : (!config.excludes path) = true ↔ ¬ config.Excluded path := by
  rw [Bool.not_eq_true', ← Bool.not_eq_true, excludes_eq_true_iff]

theorem Selects.unique
    (hfound : config.Selects files path target found)
    (hfound' : config.Selects files path target found') : found = found' := by
  obtain ⟨place, tree, names, htree, -, hlookup, rfl⟩ := hfound.below
  obtain ⟨place', tree', names', htree', -, hlookup', hsame⟩ := hfound'.below
  cases htree.symm.trans htree'
  obtain rfl : names = names' := by simpa [Path.descend] using hsame
  exact Option.some.inj (hlookup.symm.trans hlookup')

theorem not_selects_of_file {content : List UInt8} (hpath : files.get path = .ok (.file content)) :
    ¬ config.Selects files path target found := by
  rintro ⟨⟨place, tree, names, htree, hne, hlookup, -⟩, -, -⟩
  obtain ⟨place', hfind⟩ := FileSystem.get_eq_ok_iff.mp hpath
  cases htree.symm.trans hfind
  obtain ⟨name, rest, rfl⟩ := List.exists_cons_of_ne_nil hne
  simp [FileTree.lookup, FileTree.entries] at hlookup

theorem reaches_descend_iff
    {place names : List String} (hfind : files.find path = .ok (place, tree)) :
    files.Reaches path (path.descend names) ↔ files.reaches place names = true := by
  constructor
  · rintro ⟨place', tree', names', hfind', hsame, hreaches⟩
    cases hfind.symm.trans hfind'
    obtain rfl : names = names' := by simpa [Path.descend] using hsame
    exact hreaches
  · intro hreaches
    exact ⟨place, tree, names, hfind, rfl, hreaches⟩

theorem name_descend {names : List String} (hne : names ≠ []) :
    (path.descend names).name = names.getLast?.getD "" := by
  obtain ⟨init, last, rfl⟩ := List.eq_nil_or_concat names |>.resolve_left hne
  simp [Path.descend, Path.name, List.getLast?_append]

/-! ## Walks that are broken off -/

section Walk

variable [StackRoom] {place : List String} {entries : List (String × FileTree)}

theorem walkError?_eq_some_cases
    {entry : List String × FileTree} {e : FileError}
    (herror : FileSystem.walkError? path entry = some e) :
    e = .nestedTooDeep ∨ e = .nameTooLong := by
  unfold FileSystem.walkError? at herror
  split at herror
  next => cases herror
  next =>
    split at herror
    next =>
      cases herror
      exact .inl rfl
    next =>
      split at herror
      next =>
        cases herror
        exact .inr rfl
      next => cases herror

theorem isSome_walkError?_iff {entry : List String × FileTree} :
    (FileSystem.walkError? path entry).isSome = true ↔ entry.2.isDirectory = true ∧
      (StackRoom.directories < entry.1.length ∨
        FileSystem.pathLimit ≤ (Text.bytes (toString (path.descend entry.1))).length) := by
  unfold FileSystem.walkError?
  cases entry.2.isDirectory with
  | false => simp
  | true =>
      by_cases hdeep : StackRoom.directories < entry.1.length
      · simp [hdeep]
      · simp [hdeep]

/-- A walk is broken off exactly if it comes to a directory that lies too deep. -/
theorem isSome_findSome?_walkError?_iff
    (hfiles : files.root.Sound) (hfind : files.find path = .ok (place, .directory entries)) :
    ((files.walk place (.directory entries)).findSome?
        (FileSystem.walkError? path)).isSome = true ↔ TooDeep files path := by
  have hsound := hfiles.lookup (FileSystem.find_eq_ok_iff.mp hfind).2
  rw [List.isSome_findSome?, List.any_eq_true]
  constructor
  · rintro ⟨⟨names, below⟩, hmem, herror⟩
    obtain ⟨hne, hlookup, hreaches⟩ := (FileSystem.mem_walk_iff hsound).mp hmem
    obtain ⟨hdirectory, hdeep⟩ := isSome_walkError?_iff.mp herror
    cases below with
    | file content => cases hdirectory
    | directory below => exact ⟨place, _, names, below, hfind, hne, hlookup, hreaches, hdeep⟩
  · rintro ⟨place', tree', names, below, hfind', hne, hlookup, hreaches, hdeep⟩
    cases hfind.symm.trans hfind'
    exact ⟨(names, .directory below),
      (FileSystem.mem_walk_iff hsound).mpr ⟨hne, hlookup, hreaches⟩,
      isSome_walkError?_iff.mpr ⟨rfl, hdeep⟩⟩

theorem exists_expand_of_tooDeep (hfiles : files.root.Sound) (hdeep : TooDeep files path) :
    ∃ e, expand files path = .error e := by
  have hdeep' := hdeep
  obtain ⟨place, tree, names, _, hfind, hne, hlookup, -⟩ := hdeep'
  obtain ⟨name, rest, rfl⟩ := List.exists_cons_of_ne_nil hne
  obtain ⟨entries, -, rfl, -⟩ := FileTree.exists_directory_of_lookup hlookup
  obtain ⟨e, he⟩ :=
    Option.isSome_iff_exists.mp ((isSome_findSome?_walkError?_iff hfiles hfind).mpr hdeep)
  refine ⟨e, ?_⟩
  rw [expand_of_directory hfind, he]

theorem eq_of_expand_eq_error
    {e : FileError} (hpath : files.get path = .ok tree) (hexpand : expand files path = .error e) :
    e = .nestedTooDeep ∨ e = .nameTooLong := by
  cases tree with
  | file content =>
      rw [expand_of_file hpath] at hexpand
      cases hexpand
  | directory entries =>
      obtain ⟨place, hfind⟩ := FileSystem.get_eq_ok_iff.mp hpath
      rw [expand_of_directory hfind] at hexpand
      split at hexpand
      next e' he' =>
        cases hexpand
        obtain ⟨entry, -, hentry⟩ := List.exists_of_findSome?_eq_some he'
        exact walkError?_eq_some_cases hentry
      next => cases hexpand

theorem expand_of_shallow
    (hfiles : files.root.Sound) (hfind : files.find path = .ok (place, .directory entries))
    (hshallow : ¬ TooDeep files path) :
    expand files path = .ok ((FileSystem.rubyNames
      (files.walk place (.directory entries))).map path.descend) := by
  have hnone := mt (isSome_findSome?_walkError?_iff hfiles hfind).mp hshallow
  rw [Bool.not_eq_true, Option.isSome_eq_false_iff, Option.isNone_iff_eq_none] at hnone
  rw [expand_of_directory hfind, hnone]

end Walk

/-! ## What is listed -/

section Expand

variable [StackRoom] (hfiles : files.root.Sound)

include hfiles

/-- All that is called like a Ruby file and that a walk comes to is listed. -/
theorem exists_expand (hpath : files.get path = .ok tree) (hshallow : ¬ TooDeep files path) :
    ∃ targets, expand files path = .ok targets ∧
      config.ExpandsToReached files path
        (targets.filter fun target => !config.excludes target) := by
  cases tree with
  | file content =>
      refine ⟨[path], expand_of_file hpath, ?_⟩
      by_cases hexcluded : config.Excluded path
      · rw [List.filter_cons_of_neg (by rwa [not_excludes_iff, not_not]), List.filter_nil]
        exact .excludedFile hpath hexcluded
      · rw [List.filter_cons_of_pos (by rwa [not_excludes_iff]), List.filter_nil]
        exact .file hpath hexcluded
  | directory entries =>
      obtain ⟨place, hfind⟩ := FileSystem.get_eq_ok_iff.mp hpath
      have hsound := hfiles.lookup (FileSystem.find_eq_ok_iff.mp hfind).2
      refine ⟨_, expand_of_shallow hfiles hfind hshallow, .directory hpath ?_ ?_⟩
      · intro target
        simp only [List.mem_filter, List.mem_map, FileSystem.mem_rubyNames_iff hsound,
          not_excludes_iff]
        constructor
        · rintro ⟨⟨names, ⟨found, hne, hlookup, hreaches, hruby⟩, rfl⟩, hkept⟩
          refine ⟨found, ⟨⟨place, _, names, hfind, hne, hlookup, rfl⟩, ?_, hkept⟩,
            (reaches_descend_iff hfind).mpr hreaches⟩
          rwa [name_descend hne]
        · rintro ⟨found, ⟨⟨place', tree, names, hfind', hne, hlookup, rfl⟩, hruby, hkept⟩,
            hreaches⟩
          cases hfind.symm.trans hfind'
          rw [name_descend hne] at hruby
          rw [reaches_descend_iff hfind] at hreaches
          exact ⟨⟨names, ⟨found, hne, hlookup, hreaches, hruby⟩, rfl⟩, hkept⟩
      · refine List.Pairwise.filter _ (List.pairwise_map.mpr ?_)
        exact (FileSystem.pairwise_rubyNames hsound).imp fun hlt => List.append_left_lt hlt

omit [StackRoom] hfiles in
theorem ExpandsToReached.files_iff (hall : config.ExpandsToReached files path targets) :
    config.ExpandsToFiles files path targets ↔
      ¬ config.HoldsRubyDirectory files path ∧ ¬ config.HidesRubyFile files path := by
  have hnone : ∀ {content}, files.get path = .ok (.file content) →
      ¬ config.HoldsRubyDirectory files path ∧ ¬ config.HidesRubyFile files path :=
    fun hpath => ⟨fun ⟨_, _, hselects, _⟩ => not_selects_of_file hpath hselects,
      fun ⟨_, _, hselects, _⟩ => not_selects_of_file hpath hselects⟩
  cases hall with
  | file hpath hkept => exact iff_of_true (.file hpath hkept) (hnone hpath)
  | excludedFile hpath hexcluded => exact iff_of_true (.excludedFile hpath hexcluded) (hnone hpath)
  | directory hpath hmem hincreasing =>
      constructor
      · intro hlisted
        cases hlisted with
        | file hpath' _ => cases hpath.symm.trans hpath'
        | excludedFile hpath' _ => cases hpath.symm.trans hpath'
        | directory _ hmem' _ =>
            constructor
            · rintro ⟨target, below, hselects, hreaches⟩
              have htarget := (hmem target).mpr ⟨_, hselects, hreaches⟩
              obtain ⟨found, hfound, hfile⟩ := (hmem' target).mp htarget
              rw [hfound.unique hselects] at hfile
              cases hfile
            · rintro ⟨target, content, hselects, hhidden⟩
              have htarget := (hmem' target).mpr ⟨_, hselects, rfl⟩
              obtain ⟨found, -, hreaches⟩ := (hmem target).mp htarget
              exact hhidden hreaches
      · rintro ⟨hdirectory, hhidden⟩
        refine .directory hpath ?_ hincreasing
        intro target
        rw [hmem]
        refine exists_congr fun found => and_congr_right fun hselects => ?_
        cases found with
        | file content =>
            refine iff_of_true ?_ rfl
            by_contra hreaches
            exact hhidden ⟨target, content, hselects, hreaches⟩
        | directory below =>
            refine iff_of_false ?_ (by simp [FileTree.isFile])
            exact fun hreaches => hdirectory ⟨target, below, hselects, hreaches⟩

/-- A directory is among the targets exactly if a walk comes to one that is called like a Ruby
file. -/
theorem ExpandsToReached.exists_directory_iff
    (hshallow : ¬ TooDeep files path) (hall : config.ExpandsToReached files path targets) :
    (∃ target ∈ targets, ∃ entries, files.unlocked.get target = .ok (.directory entries)) ↔
      config.HoldsRubyDirectory files path := by
  cases hall with
  | file hpath _ =>
      refine iff_of_false ?_ fun ⟨_, _, hselects, _⟩ => not_selects_of_file hpath hselects
      rintro ⟨target, htarget, entries, hentries⟩
      obtain rfl := List.mem_singleton.mp htarget
      have hpath' := FileSystem.get_unlocked hpath
      cases hpath'.symm.trans hentries
  | excludedFile hpath _ =>
      refine iff_of_false ?_ fun ⟨_, _, hselects, _⟩ => not_selects_of_file hpath hselects
      rintro ⟨target, htarget, -⟩
      cases htarget
  | directory hpath hmem _ =>
      obtain ⟨place, hfind⟩ := FileSystem.get_eq_ok_iff.mp hpath
      have hsound := hfiles.lookup (FileSystem.find_eq_ok_iff.mp hfind).2
      constructor
      · rintro ⟨target, htarget, below, hbelow⟩
        obtain ⟨found, hselects, hreaches⟩ := (hmem target).mp htarget
        obtain ⟨place', tree, names, hfind', hne, hlookup, rfl⟩ := hselects.below
        cases hfind.symm.trans hfind'
        rw [FileSystem.get_descend (hsound.reachable_of_lookup hne hlookup) hne hfind hlookup]
          at hbelow
        split at hbelow
        next => cases hbelow
        next =>
          cases hbelow
          exact ⟨_, _, hselects, hreaches⟩
      · rintro ⟨target, below, hselects, hreaches⟩
        refine ⟨target, (hmem target).mpr ⟨_, hselects, hreaches⟩, below, ?_⟩
        obtain ⟨place', tree, names, hfind', hne, hlookup, rfl⟩ := hselects.below
        cases hfind.symm.trans hfind'
        rw [reaches_descend_iff hfind] at hreaches
        rw [FileSystem.get_descend (hsound.reachable_of_lookup hne hlookup) hne hfind hlookup]
        exact if_neg fun hlong =>
          hshallow ⟨place, _, names, below, hfind, hne, hlookup, hreaches, .inr hlong⟩

end Expand

/-- Existing paths stand, one after the other, for what is called like a Ruby file below the
directories among them, as far as a walk comes to it, and for the files themselves, less what is
excluded; only a directory that lies too deep or has too long a path keeps this from being found.
The directories below count as well, so what is listed are files only if no walk comes to one that
is called like a Ruby file without being excluded, and these are all such files only if none lies
where no walk comes to. -/
theorem collect_lists_ruby_entries
    [StackRoom] (hfiles : files.root.Sound)
    (hpaths : ∀ path ∈ paths, ∃ tree, files.get path = .ok tree) :
    ((∃ path ∈ paths, TooDeep files path) →
      ∃ e, (e = .nestedTooDeep ∨ e = .nameTooLong) ∧ config.collect files paths = .error e) ∧
    ((∀ path ∈ paths, ¬ TooDeep files path) →
      ∃ blocks, config.collect files paths = .ok blocks.flatten ∧
        List.Forall₂ (config.ExpandsToReached files) paths blocks ∧
        (List.Forall₂ (config.ExpandsToFiles files) paths blocks ↔
          ∀ path ∈ paths,
            ¬ config.HoldsRubyDirectory files path ∧ ¬ config.HidesRubyFile files path) ∧
        ((∃ target ∈ blocks.flatten, ∃ entries,
            files.unlocked.get target = .ok (.directory entries)) ↔
          ∃ path ∈ paths, config.HoldsRubyDirectory files path)) := by
  constructor
  · rintro ⟨path, hpath, hdeep⟩
    obtain ⟨path', hpath', e, he, hcollect⟩ := @exists_collect_eq_error _ files config paths
      ⟨path, hpath, exists_expand_of_tooDeep hfiles hdeep⟩
    obtain ⟨tree, htree⟩ := hpaths path' hpath'
    exact ⟨e, eq_of_expand_eq_error htree he, hcollect⟩
  · intro hshallow
    have hexpand : ∀ path ∈ paths, ∃ targets, expand files path = .ok targets ∧
        config.ExpandsToReached files path
          (targets.filter fun target => !config.excludes target) := by
      intro path hpath
      obtain ⟨tree, htree⟩ := hpaths path hpath
      exact exists_expand hfiles htree (hshallow path hpath)
    have hexpands : ∀ path ∈ paths, config.ExpandsToReached files path
        ((expansion files path).filter fun target => !config.excludes target) := by
      intro path hpath
      obtain ⟨targets, htargets, hreached⟩ := hexpand path hpath
      cases (expand_eq htargets).symm.trans htargets
      exact hreached
    have hdirectories := fun path hpath =>
      (hexpands path hpath).exists_directory_iff hfiles (hshallow path hpath)
    refine ⟨paths.map fun path => (expansion files path).filter fun target =>
      !config.excludes target, ?_, ?_, ?_, ?_⟩
    · rw [collect_eq fun path hpath => (hexpand path hpath).imp fun _ => And.left,
        List.filter_flatMap, List.flatMap_def]
    · rw [List.forall₂_map_right_iff, List.forall₂_same]
      exact hexpands
    · rw [List.forall₂_map_right_iff, List.forall₂_same]
      exact forall₂_congr fun path hpath => (hexpands path hpath).files_iff
    · constructor
      · rintro ⟨target, htarget, hdirectory⟩
        obtain ⟨block, hblock, htarget⟩ := List.mem_flatten.mp htarget
        obtain ⟨path, hpath, rfl⟩ := List.mem_map.mp hblock
        exact ⟨path, hpath, (hdirectories path hpath).mp ⟨target, htarget, hdirectory⟩⟩
      · rintro ⟨path, hpath, hholds⟩
        obtain ⟨target, htarget, hdirectory⟩ := (hdirectories path hpath).mpr hholds
        exact ⟨target, List.mem_flatten.mpr ⟨_, List.mem_map_of_mem hpath, htarget⟩, hdirectory⟩

/-! ## Two listings -/

def libraryEntries : List (String × FileTree) :=
  [(".hidden", .directory [("b.rb", .file [])]), ("a.rb", .file []),
    ("build.rb", .directory [("c.rb", .file [])]), ("notes", .file [])]

/-- A directory with a hidden one and with one that is called like a Ruby file, and a file. -/
def libraryFiles : FileSystem where
  root := .directory [("run", .file []), ("work", .directory [("lib", .directory libraryEntries)])]
  workingDirectory := ["work"]
  access _ := .full

def libraryConfig : Config := ⟨{ Settings.default with exclude := ["build.rb"] }, none⟩

def libraryPaths : List Path := [⟨"/", ["work", "lib"]⟩, ⟨"", ["..", "run"]⟩]

def libraryTargets : List Path :=
  [⟨"/", ["work", "lib", ".hidden", "b.rb"]⟩, ⟨"/", ["work", "lib", "a.rb"]⟩,
    ⟨"/", ["work", "lib", "build.rb", "c.rb"]⟩, ⟨"", ["..", "run"]⟩]

theorem sound_libraryFiles : libraryFiles.root.Sound := by
  constructor <;> decide +kernel

theorem find_libraryPaths :
    libraryFiles.find ⟨"/", ["work", "lib"]⟩ = .ok (["work", "lib"], .directory libraryEntries) ∧
      libraryFiles.get ⟨"", ["..", "run"]⟩ = .ok (.file []) :=
  ⟨FileSystem.find_eq_ok_iff.mpr ⟨by decide +kernel, rfl⟩,
    FileSystem.get_eq_ok_iff.mpr
      ⟨["run"], FileSystem.find_eq_ok_iff.mpr ⟨by decide +kernel, rfl⟩⟩⟩

theorem get_libraryPaths : ∀ path ∈ libraryPaths, ∃ tree, libraryFiles.get path = .ok tree := by
  obtain ⟨hlib, hrun⟩ := find_libraryPaths
  simp [libraryPaths, FileSystem.get_eq_ok_iff.mpr ⟨_, hlib⟩, hrun]

theorem rubyNames_libraryEntries :
    FileSystem.rubyNames (libraryFiles.walk ["work", "lib"] (.directory libraryEntries)) =
      [[".hidden", "b.rb"], ["a.rb"], ["build.rb"], ["build.rb", "c.rb"]] :=
  List.mergeSort_of_pairwise (by decide +kernel)

theorem expand_libraryPaths :
    expand libraryFiles ⟨"/", ["work", "lib"]⟩ =
        .ok ([[".hidden", "b.rb"], ["a.rb"], ["build.rb"], ["build.rb", "c.rb"]].map
          (Path.descend ⟨"/", ["work", "lib"]⟩)) ∧
      expand libraryFiles ⟨"", ["..", "run"]⟩ = .ok [⟨"", ["..", "run"]⟩] := by
  obtain ⟨hlib, hrun⟩ := find_libraryPaths
  refine ⟨?_, expand_of_file hrun⟩
  rw [expand_of_directory hlib, rubyNames_libraryEntries]
  decide +kernel

theorem shallow_libraryPaths : ∀ path ∈ libraryPaths, ¬ TooDeep libraryFiles path := by
  obtain ⟨hlib, hrun⟩ := expand_libraryPaths
  intro path hpath hdeep
  obtain ⟨e, he⟩ := exists_expand_of_tooDeep sound_libraryFiles hdeep
  simp only [libraryPaths, List.mem_cons, List.not_mem_nil, or_false] at hpath
  rcases hpath with rfl | rfl
  · cases hlib.symm.trans he
  · cases hrun.symm.trans he

theorem collect_libraryPaths :
    libraryConfig.collect libraryFiles libraryPaths = .ok libraryTargets := by
  obtain ⟨hlib, hrun⟩ := expand_libraryPaths
  rw [collect_eq (by simp [libraryPaths, hlib, hrun])]
  simp only [libraryPaths, List.flatMap_cons, List.flatMap_nil, expansion, hlib, hrun]
  decide +kernel

theorem reaches_libraryEntries (names : List String) :
    libraryFiles.reaches ["work", "lib"] names = true := by
  simp [FileSystem.reaches, libraryFiles, Access.full]

theorem collect_lists_ruby_entries_of_libraryFiles :
    libraryFiles.root.Sound ∧ (∀ path ∈ libraryPaths, ∃ tree, libraryFiles.get path = .ok tree) ∧
      ∃ blocks, blocks.flatten = libraryTargets ∧
        libraryConfig.collect libraryFiles libraryPaths = .ok blocks.flatten ∧
        List.Forall₂ (libraryConfig.ExpandsToFiles libraryFiles) libraryPaths blocks := by
  obtain ⟨hlib, hrun⟩ := find_libraryPaths
  obtain ⟨blocks, hcollect, -, hlisted, hdirectories⟩ :=
    (@collect_lists_ruby_entries libraryConfig _ _ _ sound_libraryFiles get_libraryPaths).2
      shallow_libraryPaths
  have hblocks : blocks.flatten = libraryTargets :=
    Except.ok.inj (hcollect.symm.trans collect_libraryPaths)
  refine ⟨sound_libraryFiles, get_libraryPaths, blocks, hblocks, hcollect, hlisted.mpr ?_⟩
  intro path hpath
  constructor
  · intro hholds
    obtain ⟨target, htarget, entries, hentries⟩ := hdirectories.mpr ⟨path, hpath, hholds⟩
    rw [hblocks] at htarget
    simp only [libraryTargets, List.mem_cons, List.not_mem_nil, or_false] at htarget
    rcases htarget with rfl | rfl | rfl | rfl
    all_goals cases hentries
  · rintro ⟨target, content, hselects, hhidden⟩
    simp only [libraryPaths, List.mem_cons, List.not_mem_nil, or_false] at hpath
    rcases hpath with rfl | rfl
    · obtain ⟨place, tree, names, hfind, -, -, rfl⟩ := hselects.below
      exact hhidden ((reaches_descend_iff hlib).mpr (reaches_libraryEntries names))
    · exact not_selects_of_file hrun hselects

/-- A directory that is called like a Ruby file. -/
def misnamedFiles : FileSystem where
  root := .directory [("work", .directory [("d", .directory [("x.rb", .directory [])])])]
  workingDirectory := ["work"]
  access _ := .full

/-- A directory is listed where only files should be. -/
theorem collect_lists_directory :
    misnamedFiles.root.Sound ∧ misnamedFiles.get ⟨"", ["d", "x.rb"]⟩ = .ok (.directory []) ∧
      Config.default.collect misnamedFiles [Path.ofString "d"] = .ok [⟨"", ["d", "x.rb"]⟩] ∧
      ¬ Config.default.ExpandsToFiles misnamedFiles (Path.ofString "d")
        [⟨"", ["d", "x.rb"]⟩] := by
  have hfind : misnamedFiles.find (Path.ofString "d") =
      .ok (["work", "d"], .directory [("x.rb", .directory [])]) :=
    FileSystem.find_eq_ok_iff.mpr ⟨by decide +kernel, rfl⟩
  have hfound : misnamedFiles.get ⟨"", ["d", "x.rb"]⟩ = .ok (.directory []) :=
    FileSystem.get_eq_ok_iff.mpr
      ⟨["work", "d", "x.rb"], FileSystem.find_eq_ok_iff.mpr ⟨by decide +kernel, rfl⟩⟩
  have hselects : Config.default.Selects misnamedFiles (Path.ofString "d") ⟨"", ["d", "x.rb"]⟩
      (.directory []) := by
    refine ⟨⟨_, _, ["x.rb"], hfind, by decide, rfl, by decide⟩, by decide, ?_⟩
    rintro ⟨pattern, hpattern, -⟩
    cases hpattern
  have hnames : FileSystem.rubyNames (misnamedFiles.walk ["work", "d"]
      (.directory [("x.rb", .directory [])])) = [["x.rb"]] := List.mergeSort_singleton ["x.rb"]
  have hexpand : expand misnamedFiles (Path.ofString "d") = .ok [⟨"", ["d", "x.rb"]⟩] := by
    rw [expand_of_directory hfind, hnames]
    decide +kernel
  refine ⟨by constructor <;> decide +kernel, hfound, ?_, ?_⟩
  · rw [collect_eq (by simp [hexpand])]
    simp only [List.flatMap_cons, List.flatMap_nil, expansion, hexpand]
    decide +kernel
  · intro hlisted
    cases hlisted with
    | directory _ hmem _ =>
        obtain ⟨found, hfound, hfile⟩ := (hmem _).mp List.mem_cons_self
        rw [hfound.unique hselects] at hfile
        cases hfile

end Config

end RubyLint

import RubyLint.CommandLine.Run
import RubyLint.Proofs.ControlSequences
import RubyLint.Proofs.FileOutline
import RubyLint.Proofs.Utf8RoundTrip
import Mathlib.Tactic

/-!
# Configuration files that are refused with a message

A configuration file is used if it is TOML, its section is a table and every entry of the section
has the right type.  Most other files are refused with a message and exit code 2: those that break
the rules of TOML and those with an entry of the wrong type.  The rest ends the run without a
message.  These are the files that are not UTF-8, those beyond the limits of the TOML reader, and
those where `tool` or `tool.rb-lint` is there and is no table.
-/

namespace RubyLint

open Text

/-! ## The entries of the section -/

namespace Settings

def IsStrings (entry : Option Toml.Value) : Prop :=
  ∀ value, entry = some value → ∃ texts : List String, value = .array (texts.map .string)

def IsLevels (entry : Option Toml.Value) : Prop :=
  ∀ value, entry = some value → ∃ levels, value = .table levels ∧
    ∀ level ∈ levels, ∃ (text : String) (severity : Severity),
      level.2 = .string text ∧ severity.name = capitalize text

/-- Every entry that the settings are read from is absent or of the right type. -/
structure WellTyped (table : Toml.Table) : Prop where
  select : IsStrings (table.lookup "select")
  ignore : IsStrings (table.lookup "ignore")
  severity : IsLevels (table.lookup "severity")
  exclude : IsStrings (table.lookup "exclude")

theorem wellTyped_nil : WellTyped [] := by
  constructor <;> intro value hvalue <;> cases hvalue

theorem exists_eq_map_string_iff (items : List Toml.Value) :
    (∃ texts : List String, items = texts.map .string) ↔
      ∀ item ∈ items, ∃ text : String, item = .string text := by
  have hrange := Set.ext_iff.mp (Set.range_list_map Toml.Value.string) items
  simpa [Set.mem_range, eq_comm] using hrange

theorem readStrings_snd_eq_nil_iff
    (field : String) (fallback : List String) (entry : Option Toml.Value) :
    (readStrings field fallback entry).2 = [] ↔ IsStrings entry := by
  cases entry with
  | none => simp [readStrings, IsStrings]
  | some value =>
      cases value with
      | array items =>
          simp only [readStrings, IsStrings, Option.some.injEq, forall_eq', Toml.Value.array.injEq,
            exists_eq_map_string_iff, List.filterMap_eq_nil_iff]
          rw [List.forall_mem_zipIdx, List.forall_mem_iff_getElem]
          refine forall₂_congr fun index hindex => ?_
          cases items[index] <;> simp
      | _ => simp [readStrings, IsStrings]

theorem isSome_readLevel_iff (level : Toml.Value) :
    (readLevel level).isSome = true ↔ ∃ (text : String) (severity : Severity),
      level = .string text ∧ severity.name = capitalize text := by
  have hall : ∀ severity : Severity, severity ∈ Severity.all := by
    intro severity
    cases severity <;> simp [Severity.all]
  cases level with
  | string text => simp [readLevel, Severity.ofName?, hall]
  | _ => simp [readLevel]

theorem readLevels_snd_eq_nil_iff (field : String) (entry : Option Toml.Value) :
    (readLevels field entry).2 = [] ↔ IsLevels entry := by
  cases entry with
  | none => simp [readLevels, IsLevels]
  | some value =>
      cases value with
      | table levels =>
          simp only [readLevels, IsLevels, Option.some.injEq, forall_eq', Toml.Value.table.injEq,
            exists_eq_left', List.filterMap_eq_nil_iff, ← isSome_readLevel_iff]
          refine forall₂_congr fun level hlevel => ?_
          cases (readLevel level.2).isSome <;> simp
      | _ => simp [readLevels, IsLevels]

theorem exists_ofTable_iff (table : Toml.Table) :
    (∃ settings, ofTable table = .ok settings) ↔ WellTyped table := by
  have hselect := readStrings_snd_eq_nil_iff "select" default.select (table.lookup "select")
  have hignore := readStrings_snd_eq_nil_iff "ignore" default.ignore (table.lookup "ignore")
  have hseverity := readLevels_snd_eq_nil_iff "severity" (table.lookup "severity")
  have hexclude := readStrings_snd_eq_nil_iff "exclude" default.exclude (table.lookup "exclude")
  have hwellTyped : WellTyped table ↔
      (readStrings "select" default.select (table.lookup "select")).2 ++
        (readStrings "ignore" default.ignore (table.lookup "ignore")).2 ++
        (readLevels "severity" (table.lookup "severity")).2 ++
        (readStrings "exclude" default.exclude (table.lookup "exclude")).2 = [] := by
    rw [List.append_eq_nil_iff, List.append_eq_nil_iff, List.append_eq_nil_iff, hselect, hignore,
      hseverity, hexclude]
    exact ⟨fun h => ⟨⟨⟨h.1, h.2⟩, h.3⟩, h.4⟩, fun h => ⟨h.1.1.1, h.1.1.2, h.1.2, h.2⟩⟩
  rw [hwellTyped]
  unfold ofTable
  simp only
  split
  next hnone => exact iff_of_true ⟨_, rfl⟩ hnone
  next hsome =>
    refine iff_of_false ?_ hsome
    rintro ⟨settings, hsettings⟩
    cases hsettings

end Settings

/-! ## The file -/

/-- The section and the table that holds it are tables, where they are there at all. -/
def Toml.Table.ProperSection (document : Toml.Table) : Prop :=
  ∀ value, document.lookup "tool" = some value → ∃ tools, value = .table tools ∧
    ∀ value', tools.lookup "rb-lint" = some value' → ∃ entries, value' = .table entries

/-- The section is well typed, if there is one. -/
def Toml.Table.WellTypedSection (document : Toml.Table) : Prop :=
  ∀ tools entries, document.lookup "tool" = some (.table tools) →
    tools.lookup "rb-lint" = some (.table entries) → Settings.WellTyped entries

namespace Config

/-- The bytes are a configuration. -/
def Usable (content : List UInt8) : Prop :=
  ∃ text document, decode content = .ok text ∧ Toml.parse text = .ok document ∧
    document.ProperSection ∧ document.WellTypedSection

/-- The bytes are a configuration, or what is wrong with them is reported. -/
def Handled (content : List UInt8) : Prop :=
  ∃ text, decode content = .ok text ∧
    (Toml.parse text = .error .malformed ∨
      ∃ document, Toml.parse text = .ok document ∧ document.ProperSection)

theorem Usable.handled {content : List UInt8} (husable : Usable content) : Handled content := by
  obtain ⟨text, document, hdecode, hparse, hproper, -⟩ := husable
  exact ⟨text, hdecode, .inr ⟨document, hparse, hproper⟩⟩

theorem sectionOf_cases (document : Toml.Table) :
    (document.ProperSection ∧ ∃ entries, sectionOf document = .ok entries ∧
      (Settings.WellTyped entries ↔ document.WellTypedSection)) ∨
    (¬ document.ProperSection ∧ ∃ e, sectionOf document = .error e ∧
      ∀ texts, e.report? texts = none) := by
  unfold sectionOf Toml.Table.ProperSection Toml.Table.WellTypedSection
  cases htool : document.lookup "tool" with
  | none => exact .inl ⟨by simp, [], rfl, iff_of_true Settings.wellTyped_nil (by simp)⟩
  | some value =>
      cases value with
      | table tools =>
          cases hsection : tools.lookup "rb-lint" with
          | none =>
              refine .inl ⟨?_, [], by simp [hsection], iff_of_true Settings.wellTyped_nil ?_⟩
              · simp [hsection]
              · rintro _ entries ⟨⟩ hentries
                rw [hsection] at hentries
                cases hentries
          | some value' =>
              cases value' with
              | table entries =>
                  refine .inl ⟨by simp [hsection], entries, by simp [hsection], ?_⟩
                  constructor
                  · rintro hentries _ _ ⟨⟩ hsection'
                    rw [hsection] at hsection'
                    cases hsection'
                    exact hentries
                  · intro hentries
                    exact hentries tools entries rfl hsection
              | _ =>
                  refine .inr ⟨?_, .sectionNotATable, by simp [hsection], fun _ => rfl⟩
                  intro hproper
                  obtain ⟨_, ⟨⟩, hproper⟩ := hproper _ rfl
                  obtain ⟨_, ⟨⟩⟩ := hproper _ hsection
      | _ =>
          refine .inr ⟨?_, .toolNotATable, rfl, fun _ => rfl⟩
          intro hproper
          obtain ⟨_, ⟨⟩, -⟩ := hproper _ rfl

variable {files : FileSystem} {path : Path} {content : List UInt8} {text : String}
  {document : Toml.Table}

theorem usable_iff
    (hdecode : decode content = .ok text) (hparse : Toml.parse text = .ok document) :
    Usable content ↔ document.ProperSection ∧ document.WellTypedSection := by
  unfold Usable
  rw [hdecode]
  simp only [Except.ok.injEq, exists_and_left, exists_eq_left', hparse]

theorem handled_iff
    (hdecode : decode content = .ok text) (hparse : Toml.parse text = .ok document) :
    Handled content ↔ document.ProperSection := by
  unfold Handled
  rw [hdecode]
  simp only [Except.ok.injEq, exists_eq_left', hparse, reduceCtorEq, false_or]

theorem handled_iff_of_error
    {e : Toml.Error} (hdecode : decode content = .ok text) (hparse : Toml.parse text = .error e) :
    Handled content ↔ e = .malformed := by
  unfold Handled
  rw [hdecode]
  simp only [Except.ok.injEq, exists_eq_left', hparse, reduceCtorEq, false_and, exists_false,
    or_false, Except.error.injEq]

theorem not_usable_of_error
    {e : Toml.Error} (hdecode : decode content = .ok text) (hparse : Toml.parse text = .error e) :
    ¬ Usable content := by
  unfold Usable
  rw [hdecode]
  simp [hparse]

theorem not_handled_of_error {e : Utf8Error} (hdecode : decode content = .error e) :
    ¬ Handled content := by
  unfold Handled
  rw [hdecode]
  simp

/-- What becomes of a file with some content. -/
inductive Verdict (content : List UInt8) : Except ConfigError Settings → Prop
  | used (settings : Settings) (husable : Usable content) : Verdict content (.ok settings)
  | reported {e : ConfigError} (hhandled : Handled content) (hunusable : ¬ Usable content)
      (hreport : ∀ texts, ∃ message, e.report? texts = some message) : Verdict content (.error e)
  | escaped {e : ConfigError} (hunhandled : ¬ Handled content)
      (hreport : ∀ texts, e.report? texts = none) : Verdict content (.error e)

theorem verdict_ofTable
    {entries : Toml.Table} (hhandled : Handled content)
    (husable : Usable content ↔ Settings.WellTyped entries) :
    Verdict content ((Settings.ofTable entries).mapError (.invalid path)) := by
  have htable := Settings.exists_ofTable_iff entries
  cases hsettings : Settings.ofTable entries with
  | ok settings => exact .used settings (husable.mpr (htable.mp ⟨settings, hsettings⟩))
  | error problems =>
      have hunusable : ¬ Usable content := by
        intro hcontent
        obtain ⟨settings, hok⟩ := htable.mpr (husable.mp hcontent)
        rw [hsettings] at hok
        cases hok
      exact .reported hhandled hunusable fun _ => ⟨_, rfl⟩

theorem verdict_readSettings (hread : files.read path = .ok content) :
    Verdict content (readSettings files path) := by
  unfold readSettings
  rw [hread]
  simp only [Except.mapError, bind, Except.bind]
  cases hdecode : decode content with
  | error e => exact .escaped (not_handled_of_error hdecode) fun _ => rfl
  | ok text =>
      simp only
      cases hparse : Toml.parse text with
      | error e =>
          have hhandled := handled_iff_of_error hdecode hparse
          cases e with
          | malformed =>
              exact .reported (hhandled.mpr rfl) (not_usable_of_error hdecode hparse)
                fun _ => ⟨_, rfl⟩
          | tooManyDigits count =>
              exact .escaped (fun hcontent => by cases hhandled.mp hcontent) fun _ => rfl
          | tooDeep =>
              exact .escaped (fun hcontent => by cases hhandled.mp hcontent) fun _ => rfl
      | ok document =>
          have hhandled := handled_iff hdecode hparse
          rcases sectionOf_cases document with
            ⟨hproper, entries, hentries, htyped⟩ | ⟨himproper, e, he, hreport⟩
          · have husable : Usable content ↔ Settings.WellTyped entries := by
              rw [usable_iff hdecode hparse, htyped]
              exact and_iff_right hproper
            simp only [hentries]
            exact verdict_ofTable (hhandled.mpr hproper) husable
          · simp only [he]
            exact .escaped (fun hcontent => himproper (hhandled.mp hcontent)) hreport

theorem get?_of_read (hread : files.read path = .ok content) :
    files.get? path = .ok (some (.file content)) := by
  obtain ⟨place, hlocate, hlookup, -⟩ := FileSystem.read_eq_ok_iff.mp hread
  have hfind := FileSystem.find_eq_ok_iff.mpr ⟨hlocate, hlookup⟩
  unfold FileSystem.get? FileSystem.get
  rw [hfind]
  rfl

theorem load_of_read (hread : files.read path = .ok content) :
    load files (some path) =
      match readSettings files path with
      | .ok settings => ⟨[⟨.debug, .configuration, "Loaded configuration from " ++ toString path⟩],
          .ok ⟨settings, some path⟩⟩
      | .error e => ⟨[], .error e⟩ := by
  unfold load
  simp only [get?_of_read hread]
  cases readSettings files path <;> rfl

end Config

/-! ## The run -/

namespace CommandLine

theorem errorText_eq (message : String) :
    errorText message = "Error: " ++ withoutControlSequences message :=
  withoutControlSequences_append (by decide) message

section

variable [StackRoom] {tools : Tools} {words : List String} {verbose : Bool} {options : LintOptions}
  {least : Severity} {files : FileSystem} {name : String} {content : List UInt8}

/-- With a configuration file on the command line, a run goes on only if the file is a
configuration.  What is wrong with a file that is handled ends the run with exit code 2 and one
line on the error stream, and any other file ends it without a message; no file changes. -/
theorem run_reports_handled_config
    (hwords : invocation? false words = some ⟨verbose, .lint options least⟩)
    (hname : options.config = some name)
    (hread : files.read (Path.ofString name) = .ok content) :
    ((∃ config, (Config.load files (some (Path.ofString name))).outcome = .ok config) ↔
      Config.Usable content) ∧
    ((∃ config, (Config.load files (some (Path.ofString name))).outcome = .ok config) ∨
      (∃ e message, (Config.load files (some (Path.ofString name))).outcome = .error e ∧
        e.report? tools.texts = some message) ↔ Config.Handled content) ∧
    (Config.Handled content → ¬ Config.Usable content →
      ∃ message, run tools words files = ⟨.exit 2, "", ["Error: " ++ message], files⟩) ∧
    (¬ Config.Handled content →
      ∃ e, run tools words files = ⟨.abort (.config e), "", [], files⟩) := by
  have hrun : run tools words files =
      lintWith tools verbose options least files (some (Path.ofString name)) := by
    simp only [run, hwords, lint, hname]
  rw [hrun, lintWith, Config.load_of_read hread]
  have hverdict := Config.verdict_readSettings hread
  generalize Config.readSettings files (Path.ofString name) = settings at hverdict
  cases hverdict with
  | used settings husable =>
      refine ⟨iff_of_true ⟨_, rfl⟩ husable, iff_of_true (.inl ⟨_, rfl⟩) husable.handled, ?_, ?_⟩
      · intro _ hunusable
        exact absurd husable hunusable
      · intro hunhandled
        exact absurd husable.handled hunhandled
  | @reported e hhandled hunusable hreport =>
      obtain ⟨message, hmessage⟩ := hreport tools.texts
      refine ⟨iff_of_false (by simp) hunusable,
        iff_of_true (.inr ⟨e, message, rfl, hmessage⟩) hhandled, ?_, ?_⟩
      · intro _ _
        exact ⟨withoutControlSequences message, by simp [hmessage, errorText_eq, shownLog]⟩
      · intro hunhandled
        exact absurd hhandled hunhandled
  | @escaped e hunhandled hreport =>
      refine ⟨iff_of_false (by simp) (fun husable => hunhandled husable.handled),
        iff_of_false (by simp [hreport]) hunhandled, ?_, ?_⟩
      · intro hhandled
        exact absurd hhandled hunhandled
      · intro _
        exact ⟨e, by simp [hreport, shownLog]⟩

end

/-! ## Two bad files -/

def emptyTools : Tools :=
  ⟨fun _ => ⟨0, "program", 0, 0, true, false, false, none, []⟩, fun _ => "", fun _ => ""⟩

def configOptions : LintOptions :=
  ⟨["x.rb"], some "k.toml", "STYLE", false, false, [], [], "text"⟩

/-- The working directory holds a file with some content. -/
def configFiles (content : List UInt8) : FileSystem where
  root := .directory [("work", .directory [("k.toml", .file content)])]
  workingDirectory := ["work"]
  access _ := .full

/-- The section holds a number where a list of strings is due. -/
def mistypedText : String := "[tool.rb-lint]\nselect = 1\n"

theorem invocation?_configOptions :
    invocation? false ["lint", "--config", "k.toml", "x.rb"] =
      some ⟨false, .lint configOptions .style⟩ := by decide +kernel

theorem run_reports_handled_config_of_mistypedText :
    ∃ message, run emptyTools ["lint", "--config", "k.toml", "x.rb"]
        (configFiles (bytes mistypedText)) =
      ⟨.exit 2, "", ["Error: " ++ message], configFiles (bytes mistypedText)⟩ := by
  have hread : (configFiles (bytes mistypedText)).read (Path.ofString "k.toml") =
      .ok (bytes mistypedText) := by decide +kernel
  have hdecode := decode_bytes mistypedText
  have hparse : Toml.parse mistypedText =
      .ok [("tool", .table [("rb-lint", .table [("select", .number "1")])])] := by
    decide +kernel
  have hhandled : Config.Handled (bytes mistypedText) := by
    rw [Config.handled_iff hdecode hparse]
    simp [Toml.Table.ProperSection]
  have hunusable : ¬ Config.Usable (bytes mistypedText) := by
    rw [Config.usable_iff hdecode hparse]
    rintro ⟨-, hsection⟩
    have hselect := (hsection _ _ rfl rfl).select
    simp [Settings.IsStrings] at hselect
  exact (run_reports_handled_config invocation?_configOptions rfl hread).2.2.1 hhandled hunusable

/-- A file that is not UTF-8 ends a run without a message and without an exit code of its own. -/
theorem run_aborts_on_illFormed_config :
    ∃ e, (Config.load (configFiles [0xFF]) (some (Path.ofString "k.toml"))).outcome =
        .error e ∧
      (∀ texts, e.report? texts = none) ∧
      (run emptyTools ["lint", "--config", "k.toml", "x.rb"] (configFiles [0xFF])).ending =
        .abort (.config e) := by
  have hread : (configFiles [0xFF]).read (Path.ofString "k.toml") = .ok [0xFF] := by
    decide +kernel
  have hdecode : decode [0xFF] = .error ⟨0, 0xFF, 1, .invalidStart⟩ := by decide +kernel
  have hsettings : Config.readSettings (configFiles [0xFF]) (Path.ofString "k.toml") =
      .error (.illFormedText ⟨0, 0xFF, 1, .invalidStart⟩) := by
    unfold Config.readSettings
    rw [hread]
    simp only [Except.mapError, bind, Except.bind, hdecode]
  have hload := Config.load_of_read hread
  rw [hsettings] at hload
  refine ⟨_, by rw [hload], fun _ => rfl, ?_⟩
  simp only [run, invocation?_configOptions, lint, configOptions, lintWith, hload,
    ConfigError.report?]

end CommandLine

end RubyLint

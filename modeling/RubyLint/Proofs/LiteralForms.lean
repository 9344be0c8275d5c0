import RubyLint.Literal.Split
import Mathlib.Data.Char
import Mathlib.Data.List.DropRight
import Mathlib.Tactic

/-!
# The forms of literals

A string literal stands between quotation marks or, after `%q`, `%Q` or a `%` alone, between
delimiters of its own.  A regular expression stands between slashes or, after `%r`, between
delimiters of its own, and option letters may follow it.  Splitting accepts the texts of these forms
and no others.  A text has at most one form and one way to be cut into the parts of that form, and
the parts written one after the other are the text.

The delimiters may occur in the body.  The closing delimiter is the last character of a string
literal, and of a regular expression it is the last of its kind: the option letters behind it are
free of it, even where the delimiter is a letter.
-/

namespace RubyLint

open Text

theorem closingDelimiter_toString (opening : Char) :
    closingDelimiter opening.toString = (closingChar opening).toString := by
  rw [closingDelimiter, Char.toString, String.toList_singleton]

theorem Delimiters.ofOpening_eq (opening : Char) :
    ofOpening opening = ⟨opening.toString, closingDelimiter opening.toString⟩ := by
  rw [ofOpening, closingDelimiter_toString]

theorem Delimiters.ofOpening_inj {opening opening' : Char} :
    ofOpening opening = ofOpening opening' ↔ opening = opening' := by
  constructor
  · intro hsame
    have hopening := congrArg (·.opening.toList) hsame
    simpa [ofOpening] using hopening
  · rintro rfl
    rfl

/-! ## String literals -/

/-- The ways to write a string literal. -/
inductive StringForm where
  /-- Between quotation marks. -/
  | marked
  /-- Between delimiters after `%q`. -/
  | single
  /-- Between delimiters after `%Q`. -/
  | double
  /-- Between delimiters after `%`. -/
  | bare
  deriving DecidableEq, Repr

namespace StringForm

/-- What stands before the opening delimiter. -/
def lead : StringForm → String
  | marked => ""
  | single => "%q"
  | double => "%Q"
  | bare => "%"

/-- A literal of this form may begin with `opening`, and then belongs to the family `quote`. -/
def Opens : StringForm → Char → Quote → Prop
  | marked, opening, quote => opening = quote.delimiter
  | single, _, quote => quote = .single
  | double, _, quote => quote = .double
  | bare, opening, quote =>
      isAlphanumeric opening = false ∧ isBlank opening = false ∧ quote = .double

/-- The literal of this form with the given parts. -/
def write (form : StringForm) (parts : StringParts) : String :=
  form.lead ++ parts.delimiters.opening ++ parts.body ++ parts.delimiters.closing

/-- `text` is a literal of this form with the given parts, the first of its delimiters being
`opening`. -/
structure Reads (form : StringForm) (opening : Char) (text : String) (parts : StringParts) :
    Prop where
  opens : form.Opens opening parts.quote
  delimiters : parts.delimiters = ⟨opening.toString, closingDelimiter opening.toString⟩
  text : text = form.write parts

end StringForm

theorem Quote.ofDelimiter?_eq_some_iff {c : Char} {quote : Quote} :
    ofDelimiter? c = some quote ↔ c = quote.delimiter := by
  constructor
  · intro hquote
    unfold ofDelimiter? at hquote
    split at hquote
    next hc =>
      cases hquote
      exact beq_iff_eq.mp hc
    next =>
      split at hquote
      next hc =>
        cases hquote
        exact beq_iff_eq.mp hc
      next => cases hquote
  · rintro rfl
    exact ofDelimiter?_delimiter quote

namespace StringForm

variable {form : StringForm} {opening : Char} {quote : Quote} {text : String} {parts : StringParts}

/-- The form that the first two characters of a literal point to. -/
def ofChars : List Char → StringForm
  | '%' :: 'q' :: _ => single
  | '%' :: 'Q' :: _ => double
  | '%' :: _ => bare
  | _ => marked

theorem ne_of_opens_bare (hopens : bare.Opens opening quote) : opening ≠ 'q' ∧ opening ≠ 'Q' := by
  obtain ⟨hletter, -, -⟩ := hopens
  constructor
  · rintro rfl
    exact absurd hletter (by decide)
  · rintro rfl
    exact absurd hletter (by decide)

theorem ofChars_lead (hopens : form.Opens opening quote) (rest : List Char) :
    ofChars (form.lead.toList ++ opening :: rest) = form := by
  cases form with
  | marked =>
      cases hopens
      cases quote <;> rfl
  | single => rfl
  | double => rfl
  | bare =>
      obtain ⟨hsingle, hdouble⟩ := ne_of_opens_bare hopens
      change ofChars ('%' :: opening :: rest) = bare
      unfold ofChars
      split <;> simp_all

theorem toList_write (opening : Char) (quote : Quote) (body : String) :
    (form.write ⟨quote, body, .ofOpening opening⟩).toList =
      form.lead.toList ++ opening :: (body.toList ++ [closingChar opening]) := by
  simp [write, Delimiters.ofOpening]

theorem reads_iff :
    form.Reads opening text parts ↔
      form.Opens opening parts.quote ∧ parts.delimiters = .ofOpening opening ∧
        text.toList =
          form.lead.toList ++ opening :: (parts.body.toList ++ [closingChar opening]) := by
  obtain ⟨quote, body, delimiters⟩ := parts
  rw [Delimiters.ofOpening_eq]
  constructor
  · rintro ⟨hopens, hdelimiters, rfl⟩
    cases hdelimiters
    rw [← Delimiters.ofOpening_eq]
    exact ⟨hopens, rfl, toList_write opening quote body⟩
  · rintro ⟨hopens, hdelimiters, htext⟩
    cases hdelimiters
    rw [← Delimiters.ofOpening_eq]
    refine ⟨hopens, Delimiters.ofOpening_eq opening, String.ext ?_⟩
    rw [htext, toList_write]

end StringForm

theorem stringOpening?_eq_some_iff
    {chars rest : List Char} {quote : Quote} {opening : Char} :
    stringOpening? chars = some (quote, opening, rest) ↔
      ∃ form : StringForm, form.Opens opening quote ∧
        chars = form.lead.toList ++ opening :: rest := by
  constructor
  · intro hopening
    unfold stringOpening? at hopening
    split at hopening
    next =>
      cases hopening
      exact ⟨.single, rfl, rfl⟩
    next =>
      cases hopening
      exact ⟨.double, rfl, rfl⟩
    next =>
      split at hopening
      next => cases hopening
      next hplain =>
        cases hopening
        rw [Bool.or_eq_true, not_or, Bool.not_eq_true, Bool.not_eq_true] at hplain
        exact ⟨.bare, ⟨hplain.1, hplain.2, rfl⟩, rfl⟩
    next =>
      obtain ⟨quote', hmark, hsame⟩ := Option.map_eq_some_iff.mp hopening
      cases hsame
      exact ⟨.marked, Quote.ofDelimiter?_eq_some_iff.mp hmark, rfl⟩
    next => cases hopening
  · rintro ⟨form, hopens, rfl⟩
    cases form with
    | marked =>
        cases hopens
        cases quote <;> rfl
    | single =>
        cases hopens
        rfl
    | double =>
        cases hopens
        rfl
    | bare =>
        -- the letters of the two other forms are alphanumeric
        obtain ⟨hsingle, hdouble⟩ := StringForm.ne_of_opens_bare hopens
        obtain ⟨hletter, hblank, rfl⟩ := hopens
        change stringOpening? ('%' :: opening :: rest) = _
        rw [stringOpening?, hletter, hblank]
        · rfl
        · simp [hsingle]
        · simp [hdouble]

theorem splitString_eq_some_iff {text : String} {parts : StringParts} :
    splitString text = some parts ↔
      ∃ (form : StringForm) (opening : Char), form.Reads opening text parts := by
  simp only [StringForm.reads_iff]
  constructor
  · intro hsplit
    obtain ⟨⟨quote, opening, rest⟩, hopening, hparts⟩ := Option.bind_eq_some_iff.mp hsplit
    obtain ⟨form, hopens, htext⟩ := stringOpening?_eq_some_iff.mp hopening
    simp only [Option.ite_none_right_eq_some, List.getLast?_eq_some_iff] at hparts
    obtain ⟨⟨body, rfl⟩, hparts⟩ := hparts
    cases hparts
    refine ⟨form, opening, hopens, rfl, ?_⟩
    simpa using htext
  · rintro ⟨form, opening, hopens, hdelimiters, htext⟩
    have hopening := stringOpening?_eq_some_iff.mpr ⟨form, hopens, htext⟩
    obtain ⟨quote, body, delimiters⟩ := parts
    obtain rfl : delimiters = .ofOpening opening := hdelimiters
    rw [splitString, hopening]
    simp

theorem StringForm.Reads.unique
    {form form' : StringForm} {opening opening' : Char} {text : String}
    {parts parts' : StringParts} (hreads : form.Reads opening text parts)
    (hreads' : form'.Reads opening' text parts') :
    form = form' ∧ opening = opening' ∧ parts = parts' := by
  have hsplit := splitString_eq_some_iff.mpr ⟨form, opening, hreads⟩
  have hsplit' := splitString_eq_some_iff.mpr ⟨form', opening', hreads'⟩
  obtain rfl : parts = parts' := Option.some.inj (hsplit.symm.trans hsplit')
  obtain ⟨hopens, hdelimiters, htext⟩ := reads_iff.mp hreads
  obtain ⟨hopens', hdelimiters', htext'⟩ := reads_iff.mp hreads'
  have hopening := Delimiters.ofOpening_inj.mp (hdelimiters.symm.trans hdelimiters')
  refine ⟨?_, hopening, rfl⟩
  rw [← ofChars_lead hopens, ← htext, htext', ofChars_lead hopens']

/-- Splitting a string literal accepts the texts of the four forms and gives their parts.  There is
one form, one opening delimiter and one body that a text can be written from, and writing them gives
the text back. -/
theorem splitString_reads_forms (text : String) (parts : StringParts) :
    (splitString text = some parts ↔
      ∃ (form : StringForm) (opening : Char), form.Reads opening text parts) ∧
    (∀ form opening, StringForm.Reads form opening text parts →
      form.write parts = text ∧
      ∀ form' opening' parts', StringForm.Reads form' opening' text parts' →
        form' = form ∧ opening' = opening ∧ parts' = parts) ∧
    ∀ form opening quote body, StringForm.Opens form opening quote →
      splitString (form.write ⟨quote, body, .ofOpening opening⟩) =
        some ⟨quote, body, .ofOpening opening⟩ := by
  refine ⟨splitString_eq_some_iff, ?_, ?_⟩
  · intro form opening hreads
    exact ⟨hreads.text.symm, fun form' opening' parts' hreads' => hreads'.unique hreads⟩
  · intro form opening quote body hopens
    exact splitString_eq_some_iff.mpr
      ⟨form, opening, hopens, Delimiters.ofOpening_eq opening, rfl⟩

theorem splitString_reads_forms_of_inner_delimiters :
    splitString "%q((a))" = some ⟨.single, "(a)", ⟨"(", ")"⟩⟩ ∧
    (∀ form opening parts, StringForm.Reads form opening "%q((a))" parts →
      form = .single ∧ opening = '(' ∧ parts = ⟨.single, "(a)", ⟨"(", ")"⟩⟩) ∧
    splitString "%||" = some ⟨.double, "", ⟨"|", "|"⟩⟩ ∧ splitString "%q|" = none := by
  have hreads : StringForm.Reads .single '(' "%q((a))" ⟨.single, "(a)", ⟨"(", ")"⟩⟩ :=
    ⟨rfl, by decide, by decide⟩
  obtain ⟨hexact, hunique, hwritten⟩ :=
    splitString_reads_forms "%q((a))" ⟨.single, "(a)", ⟨"(", ")"⟩⟩
  have hempty := hwritten .bare '|' .double "" ⟨by decide +kernel, by decide, rfl⟩
  exact ⟨hexact.mpr ⟨_, _, hreads⟩, (hunique _ _ hreads).2, hempty, by decide⟩

/-! ## Regular expressions -/

/-- The ways to write a regular expression. -/
inductive RegexForm where
  /-- Between slashes. -/
  | slashes
  /-- Between delimiters after `%r`. -/
  | percent
  deriving DecidableEq, Repr

namespace RegexForm

/-- What stands before the opening delimiter. -/
def lead : RegexForm → String
  | slashes => ""
  | percent => "%r"

/-- A regular expression of this form may begin with `opening`. -/
def Opens : RegexForm → Char → Prop
  | slashes, opening => opening = '/'
  | percent, _ => True

/-- The regular expression of this form with the given parts and the given text behind it. -/
def write (form : RegexForm) (parts : RegexParts) (options : String) : String :=
  form.lead ++ parts.delimiters.opening ++ parts.pattern ++ parts.delimiters.closing ++ options

/-- `text` is a regular expression of this form with the given parts, the first of its delimiters
being `opening`, and `options` are the letters behind it. -/
structure Reads (form : RegexForm) (opening : Char) (options text : String)
    (parts : RegexParts) : Prop where
  opens : form.Opens opening
  delimiters : parts.delimiters = ⟨opening.toString, closingDelimiter opening.toString⟩
  text : text = form.write parts options
  last : closingChar opening ∉ options.toList
  letters : ∀ letter ∈ options.toList, isLetter letter = true
  /-- The flags are kept as an increasing list. -/
  increasing : parts.flags.Pairwise (· < ·)
  flags : ∀ letter, letter ∈ parts.flags ↔ letter ∈ options.toList

end RegexForm

theorem mem_insertFlag {c d : Char} {flags : List Char} :
    d ∈ insertFlag c flags ↔ d = c ∨ d ∈ flags := by
  induction flags with
  | nil => simp [insertFlag]
  | cons first rest ih =>
      rw [insertFlag]
      split
      next => exact List.mem_cons
      next =>
        split
        next hsame =>
          obtain rfl := beq_iff_eq.mp hsame
          simp
        next =>
          rw [List.mem_cons, List.mem_cons, ih]
          exact or_left_comm

theorem pairwise_insertFlag (c : Char) {flags : List Char} (hflags : flags.Pairwise (· < ·)) :
    (insertFlag c flags).Pairwise (· < ·) := by
  induction flags with
  | nil => simp [insertFlag]
  | cons first rest ih =>
      obtain ⟨hfirst, hrest⟩ := List.pairwise_cons.mp hflags
      rw [insertFlag]
      split
      next hlt =>
        refine List.pairwise_cons.mpr ⟨?_, hflags⟩
        intro d hd
        rcases List.mem_cons.mp hd with rfl | hd
        · exact hlt
        · exact hlt.trans (hfirst d hd)
      next hle =>
        split
        next => exact hflags
        next hne =>
          refine List.pairwise_cons.mpr ⟨?_, ih hrest⟩
          intro d hd
          rcases mem_insertFlag.mp hd with rfl | hd
          · have hne' : first ≠ d := fun hsame => hne (beq_iff_eq.mpr hsame.symm)
            exact lt_of_le_of_ne (not_lt.mp hle) hne'
          · exact hfirst d hd

theorem mem_flagSet {c : Char} {flags : List Char} : c ∈ flagSet flags ↔ c ∈ flags := by
  induction flags with
  | nil => rfl
  | cons first rest ih =>
      rw [flagSet, List.foldr_cons, mem_insertFlag, List.mem_cons]
      exact or_congr_right ih

theorem pairwise_flagSet (flags : List Char) : (flagSet flags).Pairwise (· < ·) := by
  induction flags with
  | nil => exact .nil
  | cons first rest ih => exact pairwise_insertFlag first ih

/-- An increasing list with the letters of `flags` is the list of `flags`. -/
theorem eq_flagSet_iff {letters flags : List Char} :
    letters = flagSet flags ↔
      letters.Pairwise (· < ·) ∧ ∀ letter, letter ∈ letters ↔ letter ∈ flags := by
  constructor
  · rintro rfl
    exact ⟨pairwise_flagSet flags, fun letter => mem_flagSet⟩
  · rintro ⟨hincreasing, hmem⟩
    refine List.Pairwise.eq_of_mem_iff hincreasing (pairwise_flagSet flags) ?_
    intro letter
    rw [hmem, mem_flagSet]

theorem rtakeWhile_append_cons {c : Char} {before after : List Char} (hafter : c ∉ after) :
    (before ++ c :: after).rtakeWhile (· != c) = after := by
  induction after using List.reverseRecOn with
  | nil => exact List.rtakeWhile_concat_neg _ _ _ (by simp)
  | append_singleton after last ih =>
      rw [List.mem_append, List.mem_singleton, not_or] at hafter
      rw [← List.cons_append, ← List.append_assoc, List.rtakeWhile_concat_pos, ih hafter.1]
      simpa using Ne.symm hafter.2

theorem splitAtLast_append_cons {c : Char} {before after : List Char} (hafter : c ∉ after) :
    splitAtLast c (before ++ c :: after) = some (before, after) := by
  have htail : ((before ++ c :: after).reverse.takeWhile (· != c)).reverse = after :=
    rtakeWhile_append_cons hafter
  have hlength : (before ++ c :: after).length - after.length - 1 = before.length := by
    rw [List.length_append, List.length_cons]
    omega
  rw [splitAtLast, if_pos (by simp)]
  simp only [htail, hlength, List.take_left]

theorem splitAtLast_eq_some_iff {c : Char} {text before after : List Char} :
    splitAtLast c text = some (before, after) ↔ text = before ++ c :: after ∧ c ∉ after := by
  constructor
  · intro hsplit
    have hmem : c ∈ text := by
      unfold splitAtLast at hsplit
      split at hsplit
      next hc => exact List.contains_iff_mem.mp hc
      next => cases hsplit
    -- the first occurrence from the right is the last one
    obtain ⟨behind, front, hreverse, hbehind⟩ :=
      List.eq_append_cons_of_mem (List.mem_reverse.mpr hmem)
    have htext : text = front.reverse ++ c :: behind.reverse := by
      rw [← List.reverse_reverse text, hreverse]
      simp
    have hbehind' : c ∉ behind.reverse := by simpa using hbehind
    rw [htext, splitAtLast_append_cons hbehind'] at hsplit
    cases hsplit
    exact ⟨htext, hbehind'⟩
  · rintro ⟨rfl, hafter⟩
    exact splitAtLast_append_cons hafter

theorem regexOpening?_eq_some_iff {chars rest : List Char} {opening : Char} :
    regexOpening? chars = some (opening, rest) ↔
      ∃ form : RegexForm, form.Opens opening ∧ chars = form.lead.toList ++ opening :: rest := by
  constructor
  · intro hopening
    unfold regexOpening? at hopening
    split at hopening
    next =>
      cases hopening
      exact ⟨.slashes, rfl, rfl⟩
    next =>
      cases hopening
      exact ⟨.percent, trivial, rfl⟩
    next => cases hopening
  · rintro ⟨form, hopens, rfl⟩
    cases form with
    | slashes =>
        cases hopens
        rfl
    | percent => rfl

namespace RegexForm

variable {form form' : RegexForm} {opening opening' : Char} {options text : String}
  {parts : RegexParts}

theorem eq_of_lead (hopens : form.Opens opening) (hopens' : form'.Opens opening')
    {rest rest' : List Char}
    (hsame : form.lead.toList ++ opening :: rest = form'.lead.toList ++ opening' :: rest') :
    form = form' := by
  cases form <;> cases form' <;> simp_all [lead, Opens]

theorem toList_write (opening : Char) (pattern options : String) (flags : List Char) :
    (form.write ⟨pattern, flags, .ofOpening opening⟩ options).toList =
      form.lead.toList ++
        opening :: (pattern.toList ++ closingChar opening :: options.toList) := by
  simp [write, Delimiters.ofOpening]

theorem reads_iff :
    form.Reads opening options text parts ↔
      form.Opens opening ∧ parts.delimiters = .ofOpening opening ∧
        text.toList = form.lead.toList ++
          opening :: (parts.pattern.toList ++ closingChar opening :: options.toList) ∧
        closingChar opening ∉ options.toList ∧ options.toList.all isLetter = true ∧
        parts.flags = flagSet options.toList := by
  obtain ⟨pattern, flags, delimiters⟩ := parts
  rw [Delimiters.ofOpening_eq, List.all_eq_true, eq_flagSet_iff]
  constructor
  · rintro ⟨hopens, hdelimiters, rfl, hlast, hletters, hincreasing, hflags⟩
    cases hdelimiters
    rw [← Delimiters.ofOpening_eq]
    exact ⟨hopens, rfl, toList_write opening pattern options flags, hlast, hletters, hincreasing,
      hflags⟩
  · rintro ⟨hopens, hdelimiters, htext, hlast, hletters, hincreasing, hflags⟩
    cases hdelimiters
    rw [← Delimiters.ofOpening_eq]
    refine ⟨hopens, Delimiters.ofOpening_eq opening, String.ext ?_, hlast, hletters, hincreasing,
      hflags⟩
    rw [htext, toList_write]

end RegexForm

theorem splitRegex_eq_some_iff {text : String} {parts : RegexParts} :
    splitRegex text = some parts ↔
      ∃ (form : RegexForm) (opening : Char) (options : String),
        form.Reads opening options text parts := by
  simp only [RegexForm.reads_iff]
  constructor
  · intro hsplit
    obtain ⟨⟨opening, rest⟩, hopening, hrest⟩ := Option.bind_eq_some_iff.mp hsplit
    obtain ⟨⟨pattern, options⟩, hlast, hparts⟩ := Option.bind_eq_some_iff.mp hrest
    obtain ⟨form, hopens, htext⟩ := regexOpening?_eq_some_iff.mp hopening
    obtain ⟨rfl, hoptions⟩ := splitAtLast_eq_some_iff.mp hlast
    simp only [Option.ite_none_right_eq_some] at hparts
    obtain ⟨hletters, hparts⟩ := hparts
    cases hparts
    refine ⟨form, opening, String.ofList options, hopens, rfl, ?_⟩
    simp only [String.toList_ofList]
    exact ⟨htext, hoptions, hletters, trivial⟩
  · rintro ⟨form, opening, options, hopens, hdelimiters, htext, hlast, hletters, hflags⟩
    have hopening := regexOpening?_eq_some_iff.mpr ⟨form, hopens, htext⟩
    obtain ⟨pattern, flags, delimiters⟩ := parts
    obtain rfl : flags = flagSet options.toList := hflags
    obtain rfl : delimiters = .ofOpening opening := hdelimiters
    rw [splitRegex, hopening, Option.bind_eq_bind, Option.bind_some]
    simp only
    rw [splitAtLast_append_cons hlast, Option.bind_eq_bind, Option.bind_some]
    simp only
    rw [if_pos hletters, String.ofList_toList]

namespace RegexForm.Reads

variable {form form' : RegexForm} {opening opening' : Char} {options options' text : String}
  {parts parts' : RegexParts}

/-- What stands before the last closing delimiter is the pattern with what begins it. -/
theorem cut_at_last (hreads : form.Reads opening options text parts) {before after : String}
    (htext : text = before ++ parts.delimiters.closing ++ after)
    (hafter : closingChar opening ∉ after.toList) :
    before = form.lead ++ parts.delimiters.opening ++ parts.pattern ∧ after = options := by
  have hclosing : parts.delimiters.closing.toList = [closingChar opening] := by
    rw [hreads.delimiters, closingDelimiter_toString]
    exact String.toList_singleton _
  have hcut : splitAtLast (closingChar opening) text.toList =
      some (before.toList, after.toList) := by
    rw [htext, String.toList_append, String.toList_append, hclosing, List.append_assoc]
    exact splitAtLast_append_cons hafter
  have hcut' : splitAtLast (closingChar opening) text.toList = some
      ((form.lead ++ parts.delimiters.opening ++ parts.pattern).toList, options.toList) := by
    rw [hreads.text, write, String.toList_append, String.toList_append, hclosing,
      List.append_assoc]
    exact splitAtLast_append_cons hreads.last
  rw [hcut, Option.some.injEq, Prod.mk.injEq] at hcut'
  exact ⟨String.ext hcut'.1, String.ext hcut'.2⟩

theorem unique (hreads : form.Reads opening options text parts)
    (hreads' : form'.Reads opening' options' text parts') :
    form = form' ∧ opening = opening' ∧ options = options' ∧ parts = parts' := by
  have hsplit := splitRegex_eq_some_iff.mpr ⟨form, opening, options, hreads⟩
  have hsplit' := splitRegex_eq_some_iff.mpr ⟨form', opening', options', hreads'⟩
  obtain rfl : parts = parts' := Option.some.inj (hsplit.symm.trans hsplit')
  obtain ⟨hopens, hdelimiters, htext, -⟩ := reads_iff.mp hreads
  obtain ⟨hopens', hdelimiters', htext', -⟩ := reads_iff.mp hreads'
  obtain rfl := Delimiters.ofOpening_inj.mp (hdelimiters.symm.trans hdelimiters')
  have hoptions := (hreads'.cut_at_last hreads.text hreads.last).2
  exact ⟨eq_of_lead hopens hopens' (htext.symm.trans htext'), rfl, hoptions, rfl⟩

end RegexForm.Reads

/-- Splitting a regular expression accepts the texts of the two forms and gives their parts.  There
is one form, one opening delimiter, one pattern and one sequence of option letters that a text can
be written from, and writing them gives the text back.  The pattern ends at the last closing
delimiter, wherever else that character stands, and all that follows are flags. -/
theorem splitRegex_reads_forms (text : String) (parts : RegexParts) :
    (splitRegex text = some parts ↔
      ∃ (form : RegexForm) (opening : Char) (options : String),
        form.Reads opening options text parts) ∧
    ∀ form opening options, RegexForm.Reads form opening options text parts →
      form.write parts options = text ∧
      (∀ form' opening' options' parts', RegexForm.Reads form' opening' options' text parts' →
        form' = form ∧ opening' = opening ∧ options' = options ∧ parts' = parts) ∧
      ∀ before after : String, text = before ++ parts.delimiters.closing ++ after →
        closingChar opening ∉ after.toList →
        before = form.lead ++ parts.delimiters.opening ++ parts.pattern ∧
          ∀ letter ∈ after.toList, letter ∈ parts.flags := by
  refine ⟨splitRegex_eq_some_iff, ?_⟩
  intro form opening options hreads
  refine ⟨hreads.text.symm, fun _ _ _ _ hreads' => hreads'.unique hreads, ?_⟩
  intro before after htext hafter
  obtain ⟨hbefore, rfl⟩ := hreads.cut_at_last htext hafter
  exact ⟨hbefore, fun letter => (hreads.flags letter).mpr⟩

theorem splitRegex_reads_forms_of_letter_delimiter :
    splitRegex "%rmammi" = some ⟨"am", ['i'], ⟨"m", "m"⟩⟩ ∧
    RegexForm.Reads .percent 'm' "i" "%rmammi" ⟨"am", ['i'], ⟨"m", "m"⟩⟩ ∧
    (∀ before after : String, "%rmammi" = before ++ "m" ++ after → 'm' ∉ after.toList →
      before = "%rmam") ∧
    splitRegex "%rma" = none := by
  have hreads : RegexForm.Reads .percent 'm' "i" "%rmammi" ⟨"am", ['i'], ⟨"m", "m"⟩⟩ :=
    ⟨trivial, by decide, by decide, by decide, List.all_eq_true.mp (by decide), by decide, by simp⟩
  obtain ⟨hexact, hparts⟩ := splitRegex_reads_forms "%rmammi" ⟨"am", ['i'], ⟨"m", "m"⟩⟩
  obtain ⟨-, -, hlast⟩ := hparts _ _ _ hreads
  refine ⟨hexact.mpr ⟨_, _, _, hreads⟩, hreads, ?_, by decide⟩
  intro before after htext hafter
  exact (hlast before after htext hafter).1

end RubyLint

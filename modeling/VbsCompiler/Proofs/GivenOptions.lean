import Mathlib.Data.List.DropRight
import Mathlib.Data.List.Nodup
import Mathlib.Tactic.Choose
import VbsCompiler.Proofs.JsonTexts
import VbsCompiler.Settings

/-! What the settings object means. Each option that is given replaces its default, whatever the
order of the members and however they are spelled, and keys that are not known change nothing. The
settings are refused exactly if something that is given is blank, and written settings are read back
as they were. -/

namespace VbsCompiler

namespace Settings

def Blank (text : String) : Prop :=
  trimBlanks text.toList = []

theorem isBlankText_iff {text : String} : isBlankText text = true ↔ Blank text := by
  have htrim : Blank text ↔ ∀ c ∈ text.toList.dropWhile isBlank, isBlank c = true :=
    List.rdropWhile_eq_nil_iff
  rw [isBlankText, List.all_eq_true, htrim, ← List.dropWhile_eq_nil_iff,
    ← List.dropWhile_eq_nil_iff, List.dropWhile_idempotent]

inductive NameOption where
  | support
  | envClass
  | env
  | outerClass
  | outer
  deriving DecidableEq

namespace NameOption

def all : List NameOption :=
  [.support, .envClass, .env, .outerClass, .outer]

def key : NameOption → String
  | .support => "supportRefName"
  | .envClass => "envClassName"
  | .env => "envRefName"
  | .outerClass => "outerClassName"
  | .outer => "outerRefName"

def value (names : OutputNames) : NameOption → Ident
  | .support => names.support
  | .envClass => names.envClass
  | .env => names.env
  | .outerClass => names.outerClass
  | .outer => names.outer

end NameOption

def dependenciesKey : String := "externalDependencies"

def knownKeys : List String :=
  NameOption.all.map NameOption.key ++ [dependenciesKey]

/-- A member of a settings object: an option of the right form, or something that is not known. -/
inductive Entry where
  | name (option : NameOption) (value : String)
  | dependencies (values : List String)
  | other (key : String) (value : Json) (unknown : key ∉ knownKeys)

def Entry.member : Entry → String × Json
  | .name option value => (option.key, .string value)
  | .dependencies values => (dependenciesKey, .array (values.map .string))
  | .other key value _ => (key, value)

/-- The settings are the default ones but for the options that the entries give. -/
structure Overrides (entries : List Entry) (s : Settings) : Prop where
  given : ∀ option value, .name option value ∈ entries → option.value s.names = ⟨value⟩
  kept : ∀ option : NameOption, (∀ value, .name option value ∉ entries) →
    option.value s.names = option.value ({} : Settings).names
  dependencies : ∀ values, .dependencies values ∈ entries → s.environment = values
  environment : (∀ values, .dependencies values ∉ entries) →
    s.environment = ({} : Settings).environment

section Members

variable {members : List (String × Json)} {key : String}

theorem option?_of_mem {value : Json} (hmem : (key, value) ∈ members)
    (honce : (members.map Prod.fst).count key ≤ 1) :
    option? members key = some (some value) := by
  -- What is found has this member, and there is room for one only.
  have hlength : (members.filter (·.1 = key)).length ≤ 1 := by
    rw [List.count_eq_countP, List.countP_map, List.countP_eq_length_filter] at honce
    exact honce
  have hfound : (key, value) ∈ members.filter (·.1 = key) := by
    simpa using hmem
  obtain ⟨found, hone⟩ : ∃ found, members.filter (·.1 = key) = [found] :=
    List.length_eq_one_iff.mp (Nat.le_antisymm hlength (List.length_pos_of_mem hfound))
  rw [hone] at hfound
  rw [option?, hone, ← List.mem_singleton.mp hfound]

theorem option?_of_not_mem (h : ∀ value, (key, value) ∉ members) :
    option? members key = some none := by
  have hnone : members.filter (·.1 = key) = [] := by
    rw [List.filter_eq_nil_iff]
    rintro ⟨key', value⟩ hmem hkey
    obtain rfl : key' = key := by simpa using hkey
    exact h value hmem
  rw [option?, hnone]

end Members

section Entries

variable {entries : List Entry}

theorem NameOption.mem_all (option : NameOption) : option ∈ all := by
  cases option <;> decide

theorem NameOption.key_injective {option other : NameOption} (h : option.key = other.key) :
    option = other := by
  have hnodup : (all.map key).Nodup := by decide
  exact List.inj_on_of_nodup_map hnodup option.mem_all other.mem_all h

theorem NameOption.key_mem_knownKeys (option : NameOption) : option.key ∈ knownKeys :=
  List.mem_append_left _ (List.mem_map_of_mem option.mem_all)

theorem NameOption.key_ne_dependenciesKey (option : NameOption) :
    option.key ≠ dependenciesKey := by
  cases option <;> decide

theorem dependenciesKey_mem_knownKeys : dependenciesKey ∈ knownKeys := by
  decide

theorem mem_members_name_iff (option : NameOption) {value : Json} :
    (option.key, value) ∈ entries.map Entry.member ↔
      ∃ text, .name option text ∈ entries ∧ value = .string text := by
  rw [List.mem_map]
  constructor
  · rintro ⟨entry, hentry, hmember⟩
    cases entry with
    | name option' text =>
      obtain ⟨hkey, rfl⟩ := Prod.mk.inj hmember
      obtain rfl := NameOption.key_injective hkey
      exact ⟨text, hentry, rfl⟩
    | dependencies texts => exact absurd (Prod.mk.inj hmember).1.symm option.key_ne_dependenciesKey
    | other key _ hunknown =>
      obtain ⟨rfl, -⟩ := Prod.mk.inj hmember
      exact absurd option.key_mem_knownKeys hunknown
  · rintro ⟨text, hentry, rfl⟩
    exact ⟨_, hentry, rfl⟩

theorem mem_members_dependencies_iff {value : Json} :
    (dependenciesKey, value) ∈ entries.map Entry.member ↔
      ∃ texts, .dependencies texts ∈ entries ∧ value = .array (texts.map .string) := by
  rw [List.mem_map]
  constructor
  · rintro ⟨entry, hentry, hmember⟩
    cases entry with
    | name option text => exact absurd (Prod.mk.inj hmember).1 option.key_ne_dependenciesKey
    | dependencies texts =>
      obtain ⟨-, rfl⟩ := Prod.mk.inj hmember
      exact ⟨texts, hentry, rfl⟩
    | other key _ hunknown =>
      obtain ⟨rfl, -⟩ := Prod.mk.inj hmember
      exact absurd dependenciesKey_mem_knownKeys hunknown
  · rintro ⟨texts, hentry, rfl⟩
    exact ⟨_, hentry, rfl⟩

def GivenOnce (entries : List Entry) : Prop :=
  ∀ key ∈ knownKeys, (entries.map (·.member.1)).count key ≤ 1

theorem GivenOnce.count_le {key : String} (honce : GivenOnce entries) (hkey : key ∈ knownKeys) :
    ((entries.map Entry.member).map Prod.fst).count key ≤ 1 := by
  rw [List.map_map]
  exact honce key hkey

/-- An option is given by one entry at most, whose value is then found. -/
theorem option?_of_entries {α : Type} {key : String} {entry : α → Entry} {encode : α → Json}
    (honce : GivenOnce entries) (hkey : key ∈ knownKeys)
    (hmem : ∀ value, (key, value) ∈ entries.map Entry.member ↔
      ∃ a, entry a ∈ entries ∧ value = encode a) :
    (∃ a, entry a ∈ entries ∧ option? (entries.map Entry.member) key = some (some (encode a)) ∧
      ∀ b, entry b ∈ entries → encode b = encode a) ∨
    ((∀ a, entry a ∉ entries) ∧ option? (entries.map Entry.member) key = some none) := by
  have hfound : ∀ a, entry a ∈ entries →
      option? (entries.map Entry.member) key = some (some (encode a)) := fun a ha =>
    option?_of_mem ((hmem _).mpr ⟨a, ha, rfl⟩) (honce.count_le hkey)
  by_cases hgiven : ∃ a, entry a ∈ entries
  · obtain ⟨a, ha⟩ := hgiven
    refine .inl ⟨a, ha, hfound a ha, fun b hb => ?_⟩
    exact Option.some.inj (Option.some.inj ((hfound b hb).symm.trans (hfound a ha)))
  · have hnone : ∀ a, entry a ∉ entries := fun a ha => hgiven ⟨a, ha⟩
    refine .inr ⟨hnone, option?_of_not_mem fun value hvalue => ?_⟩
    obtain ⟨a, ha, -⟩ := (hmem value).mp hvalue
    exact hnone a ha

theorem nameOption_of_entries (honce : GivenOnce entries) (option : NameOption) (default : Ident) :
    ∃ name, nameOption (entries.map Entry.member) option.key default = some name ∧
      (∀ text, .name option text ∈ entries → name = ⟨text⟩) ∧
      ((∀ text, .name option text ∉ entries) → name = default) := by
  rcases option?_of_entries honce option.key_mem_knownKeys
      (fun _ => mem_members_name_iff option) with
    ⟨text, htext, hoption, honly⟩ | ⟨hnone, hoption⟩
  · refine ⟨⟨text⟩, ?_, fun other hother => ?_, fun hnone => absurd htext (hnone text)⟩
    · rw [nameOption, hoption]
      rfl
    · rw [Json.string.inj (honly other hother)]
  · refine ⟨default, ?_, fun text htext => absurd htext (hnone text), fun _ => rfl⟩
    rw [nameOption, hoption]

theorem strings?_strings (texts : List String) :
    strings? (.array (texts.map .string)) = some texts := by
  rw [strings?]
  induction texts with
  | nil => rfl
  | cons text texts ih =>
    rw [List.map_cons, List.mapM_cons, ih]
    rfl

theorem dependenciesOption_of_entries (honce : GivenOnce entries) (default : List String) :
    ∃ names, dependenciesOption (entries.map Entry.member) default = some names ∧
      (∀ texts, .dependencies texts ∈ entries → names = texts) ∧
      ((∀ texts, .dependencies texts ∉ entries) → names = default) := by
  rcases option?_of_entries honce dependenciesKey_mem_knownKeys
      (fun _ => mem_members_dependencies_iff) with
    ⟨texts, htexts, hoption, honly⟩ | ⟨hnone, hoption⟩
  · refine ⟨texts, ?_, fun others hothers => ?_, fun hnone => absurd htexts (hnone texts)⟩
    · rw [dependenciesOption, ← dependenciesKey, hoption]
      exact strings?_strings texts
    · have hsame := congrArg strings? (honly others hothers)
      rw [strings?_strings, strings?_strings] at hsame
      exact (Option.some.inj hsame).symm
  · refine ⟨default, ?_, fun texts htexts => absurd htexts (hnone texts), fun _ => rfl⟩
    rw [dependenciesOption, ← dependenciesKey, hoption]

theorem ofJson?_of_entries (honce : GivenOnce entries) :
    ∃ s, ofJson? (.object (entries.map Entry.member)) = some s ∧ Overrides entries s := by
  let defaults : Settings := {}
  choose name hname hgiven hkept using fun option =>
    nameOption_of_entries honce option (option.value defaults.names)
  obtain ⟨environment, henvironment, hdependencies, hdefault⟩ :=
    dependenciesOption_of_entries honce defaults.environment
  let names : OutputNames :=
    ⟨name .support, name .envClass, name .env, name .outerClass, name .outer⟩
  have hvalue : ∀ option : NameOption, option.value names = name option := by
    intro option
    cases option <;> rfl
  refine ⟨⟨names, environment⟩, ?_, ?_, ?_, hdependencies, hdefault⟩
  · have hsupport := hname .support
    have henvClass := hname .envClass
    have henv := hname .env
    have houterClass := hname .outerClass
    have houter := hname .outer
    simp only [NameOption.key, NameOption.value] at hsupport henvClass henv houterClass houter
    simp only [ofJson?, hsupport, henvClass, henv, houterClass, houter, henvironment, defaults]
    rfl
  · intro option text htext
    rw [hvalue option]
    exact hgiven option text htext
  · intro option hnone
    rw [hvalue option]
    exact hkept option hnone

end Entries

section Validation

def FirstBlank (texts : List String) (index : Nat) : Prop :=
  ∃ h : index < texts.length, Blank texts[index] ∧ ∀ j (hj : j < index), ¬ Blank texts[j]

structure Filled (s : Settings) : Prop where
  names : ∀ option : NameOption, ¬ Blank (option.value s.names).text
  dependencies : ∀ dependency ∈ s.environment, ¬ Blank dependency

theorem nameOptions_eq (s : Settings) :
    s.nameOptions = NameOption.all.map fun option => (option.key, option.value s.names) :=
  rfl

theorem find?_nameOptions (s : Settings) :
    s.nameOptions.find? (isBlankText ·.2.text) =
      (NameOption.all.find? fun option => isBlankText (option.value s.names).text).map
        fun option => (option.key, option.value s.names) := by
  rw [nameOptions_eq, List.find?_map]
  rfl

theorem not_blank_of_isBlankText {text : String} (h : ¬ isBlankText text = true) : ¬ Blank text :=
  fun hblank => h (isBlankText_iff.mpr hblank)

/-- The outcome of the checks: all is well, or the first blank name decides, or, if there is none,
the first blank dependency. -/
theorem validate_cases (s : Settings) :
    (s.Filled ∧ s.validate = .ok s) ∨
    (∃ before option after, NameOption.all = before ++ option :: after ∧
      Blank (option.value s.names).text ∧
      (∀ earlier ∈ before, ¬ Blank (earlier.value s.names).text) ∧
      s.validate = .error (.blankOption option.key)) ∨
    ((∀ option : NameOption, ¬ Blank (option.value s.names).text) ∧
      ∃ index, FirstBlank s.environment index ∧
        s.validate = .error (.blankDependency index)) := by
  cases hname : NameOption.all.find? fun option => isBlankText (option.value s.names).text with
  | some option =>
    obtain ⟨hblank, before, after, hall, hbefore⟩ := List.find?_eq_some_iff_append.mp hname
    refine .inr (.inl ⟨before, option, after, hall, isBlankText_iff.mp hblank, ?_, ?_⟩)
    · intro earlier hearlier
      exact not_blank_of_isBlankText (by simpa using hbefore earlier hearlier)
    · simp only [validate, find?_nameOptions, hname, Option.map_some]
  | none =>
    have hnames : ∀ option : NameOption, ¬ Blank (option.value s.names).text := fun option =>
      not_blank_of_isBlankText (List.find?_eq_none.mp hname option option.mem_all)
    cases hindex : s.environment.findIdx? isBlankText with
    | some index =>
      obtain ⟨hlt, hblank, hbefore⟩ := List.findIdx?_eq_some_iff_getElem.mp hindex
      refine .inr (.inr ⟨hnames, index, ⟨hlt, isBlankText_iff.mp hblank, ?_⟩, ?_⟩)
      · exact fun j hj => not_blank_of_isBlankText (hbefore j hj)
      · simp only [validate, find?_nameOptions, hname, Option.map_none, hindex]
    | none =>
      refine .inl ⟨⟨hnames, fun dependency hmem => ?_⟩, ?_⟩
      · have hfilled := List.findIdx?_eq_none_iff.mp hindex dependency hmem
        exact not_blank_of_isBlankText (by simp [hfilled])
      · simp only [validate, find?_nameOptions, hname, Option.map_none, hindex]

theorem validate_eq_ok_iff {s t : Settings} : s.validate = .ok t ↔ s.Filled ∧ t = s := by
  rcases validate_cases s with ⟨hfilled, h⟩ | ⟨_, option, _, _, hblank, _, h⟩ |
    ⟨_, index, ⟨hlt, hblank, _⟩, h⟩
  · rw [h, Except.ok.injEq, eq_comm]
    exact (and_iff_right hfilled).symm
  · rw [h]
    simp only [reduceCtorEq, false_iff]
    exact fun ⟨hfilled, _⟩ => hfilled.names option hblank
  · rw [h]
    simp only [reduceCtorEq, false_iff]
    exact fun ⟨hfilled, _⟩ => hfilled.dependencies _ (List.getElem_mem hlt) hblank

end Validation

section Given

variable {entries : List Entry} {s : Settings}

def NamesFilled (entries : List Entry) : Prop :=
  ∀ option text, .name option text ∈ entries → ¬ Blank text

def DependenciesFilled (entries : List Entry) : Prop :=
  ∀ texts, .dependencies texts ∈ entries → ∀ text ∈ texts, ¬ Blank text

/-- Of the options that are given a blank name, this one is checked first. -/
def FirstBlankName (entries : List Entry) (option : NameOption) : Prop :=
  (∃ text, .name option text ∈ entries ∧ Blank text) ∧
  ∃ before after, NameOption.all = before ++ option :: after ∧
    ∀ earlier ∈ before, ∀ text, .name earlier text ∈ entries → ¬ Blank text

theorem filled_default : ({} : Settings).Filled where
  names option := by
    cases option <;> exact not_blank_of_isBlankText (by decide)
  dependencies := by
    intro dependency hmem
    obtain rfl := List.mem_singleton.mp hmem
    exact not_blank_of_isBlankText (by decide)

theorem Overrides.blank_name_iff (h : Overrides entries s) (option : NameOption) :
    Blank (option.value s.names).text ↔ ∃ text, .name option text ∈ entries ∧ Blank text := by
  constructor
  · intro hblank
    by_cases hgiven : ∃ text, .name option text ∈ entries
    · obtain ⟨text, htext⟩ := hgiven
      rw [h.given option text htext] at hblank
      exact ⟨text, htext, hblank⟩
    · rw [h.kept option fun text htext => hgiven ⟨text, htext⟩] at hblank
      exact absurd hblank (filled_default.names option)
  · rintro ⟨text, htext, hblank⟩
    rw [h.given option text htext]
    exact hblank

theorem Overrides.given_of_blank_dependency (h : Overrides entries s) {dependency : String}
    (hmem : dependency ∈ s.environment) (hblank : Blank dependency) :
    .dependencies s.environment ∈ entries := by
  by_cases hgiven : ∃ texts, .dependencies texts ∈ entries
  · obtain ⟨texts, htexts⟩ := hgiven
    rw [h.dependencies texts htexts]
    exact htexts
  · rw [h.environment fun texts htexts => hgiven ⟨texts, htexts⟩] at hmem
    exact absurd hblank (filled_default.dependencies dependency hmem)

theorem Overrides.namesFilled_iff (h : Overrides entries s) :
    (∀ option : NameOption, ¬ Blank (option.value s.names).text) ↔ NamesFilled entries := by
  constructor
  · intro hfilled option text htext hblank
    exact hfilled option ((h.blank_name_iff option).mpr ⟨text, htext, hblank⟩)
  · intro hfilled option hblank
    obtain ⟨text, htext, hblank⟩ := (h.blank_name_iff option).mp hblank
    exact hfilled option text htext hblank

theorem Overrides.filled_iff (h : Overrides entries s) :
    s.Filled ↔ NamesFilled entries ∧ DependenciesFilled entries := by
  constructor
  · intro hfilled
    refine ⟨h.namesFilled_iff.mp hfilled.names, fun texts htexts text htext => ?_⟩
    rw [← h.dependencies texts htexts] at htext
    exact hfilled.dependencies text htext
  · rintro ⟨hnames, hdependencies⟩
    refine ⟨h.namesFilled_iff.mpr hnames, fun dependency hmem hblank => ?_⟩
    exact hdependencies _ (h.given_of_blank_dependency hmem hblank) dependency hmem hblank

/-- A text with known and unknown members is read as the default settings, overridden and then
checked. -/
theorem parse_of_entries {source : String} (honce : GivenOnce entries)
    (hsource : Json.IsTextOf source (.object (entries.map Entry.member))) :
    ∃ s, Overrides entries s ∧ parse source = s.validate := by
  obtain ⟨s, hs, hoverrides⟩ := ofJson?_of_entries honce
  refine ⟨s, hoverrides, ?_⟩
  rw [parse, Json.read?_of_isTextOf hsource, Option.bind_some, hs]

theorem parse_eq_error {source : String} {e : SettingsError} (honce : GivenOnce entries)
    (hsource : Json.IsTextOf source (.object (entries.map Entry.member)))
    (he : parse source = .error e) :
    (∃ option, FirstBlankName entries option ∧ e = .blankOption option.key) ∨
    (NamesFilled entries ∧ ∃ texts index, .dependencies texts ∈ entries ∧
      FirstBlank texts index ∧ e = .blankDependency index) := by
  obtain ⟨s, hoverrides, hparse⟩ := parse_of_entries honce hsource
  rw [hparse] at he
  rcases validate_cases s with ⟨-, h⟩ | ⟨before, option, after, hall, hblank, hbefore, h⟩ |
    ⟨hnames, index, hfirst, h⟩
  · rw [h] at he
    cases he
  · rw [h] at he
    refine .inl ⟨option, ⟨(hoverrides.blank_name_iff option).mp hblank, before, after, hall, ?_⟩,
      (Except.error.inj he).symm⟩
    intro earlier hearlier text htext hblank'
    exact hbefore earlier hearlier ((hoverrides.blank_name_iff earlier).mpr ⟨text, htext, hblank'⟩)
  · rw [h] at he
    obtain ⟨hlt, hblank, hbefore⟩ := hfirst
    exact .inr ⟨hoverrides.namesFilled_iff.mp hnames, s.environment, index,
      hoverrides.given_of_blank_dependency (List.getElem_mem hlt) hblank, ⟨hlt, hblank, hbefore⟩,
      (Except.error.inj he).symm⟩

end Given

section Written

def write (s : Settings) : String :=
  let names := s.nameOptions.map fun (key, name) => Json.quoted key ++ ':' :: Json.quoted name.text
  let dependencies := Json.quoted dependenciesKey ++
    ':' :: '[' :: [','].intercalate (s.environment.map Json.quoted) ++ [']']
  String.ofList ('\x7b' :: [','].intercalate (names ++ [dependencies]) ++ ['\x7d'])

def entries (s : Settings) : List Entry :=
  NameOption.all.map (fun option => .name option (option.value s.names).text) ++
    [.dependencies s.environment]

theorem givenOnce_entries (s : Settings) : GivenOnce s.entries := by
  intro key _
  have hkeys : s.entries.map (·.member.1) = knownKeys := rfl
  have hnodup : knownKeys.Nodup := by decide
  rw [hkeys]
  exact List.nodup_iff_count_le_one.mp hnodup key

theorem valueText_write (s : Settings) (depth : Nat) :
    Json.ValueText (depth + 2) (.object (s.entries.map Entry.member)) s.write.toList := by
  have hnames : List.Forall₂ (Json.MemberText (Json.ValueText (depth + 1)))
      (NameOption.all.map fun option => (option.key, .string (option.value s.names).text))
      (s.nameOptions.map fun (key, name) => Json.quoted key ++ ':' :: Json.quoted name.text) := by
    rw [nameOptions_eq, List.map_map, List.forall₂_map_left_iff, List.forall₂_map_right_iff]
    refine List.forall₂_same.mpr fun option _ => Json.memberText_quoted ?_ option.key
    exact .inl (.string (Json.stringText_quoted _))
  have hdependencies : Json.ValueText (depth + 1) (.array (s.environment.map .string))
      ('[' :: [','].intercalate (s.environment.map Json.quoted) ++ [']']) := by
    refine .inr (.array (Json.enclosedText_intercalate ?_))
    rw [List.forall₂_map_left_iff, List.forall₂_map_right_iff]
    exact List.forall₂_same.mpr fun dependency _ =>
      Json.ValueText.of_scalarText (.string (Json.stringText_quoted _))
  have hmembers := List.rel_append hnames
    (.cons (Json.memberText_quoted hdependencies dependenciesKey) .nil)
  rw [write, String.toList_ofList]
  exact .inr (.object (Json.enclosedText_intercalate hmembers))

theorem isTextOf_write (s : Settings) :
    Json.IsTextOf s.write (.object (s.entries.map Entry.member)) :=
  ⟨[], _, [], Json.blanks_nil, s.valueText_write 125, Json.blanks_nil, by simp⟩

theorem names_ext {names others : OutputNames}
    (h : ∀ option : NameOption, option.value names = option.value others) : names = others := by
  cases names
  cases others
  rw [OutputNames.mk.injEq]
  exact ⟨h .support, h .envClass, h .env, h .outerClass, h .outer⟩

theorem Overrides.eq_of_entries {s t : Settings} (h : Overrides s.entries t) : t = s := by
  have hnames : t.names = s.names := by
    refine names_ext fun option => ?_
    refine h.given option _ (List.mem_append_left _ ?_)
    exact List.mem_map.mpr ⟨option, option.mem_all, rfl⟩
  have henvironment : t.environment = s.environment :=
    h.dependencies _ (List.mem_append_right _ (List.mem_singleton.mpr rfl))
  cases t
  cases s
  rw [Settings.mk.injEq]
  exact ⟨hnames, henvironment⟩

/-- Written settings are read back. -/
theorem parse_write (s : Settings) : parse s.write = s.validate := by
  obtain ⟨t, hoverrides, hparse⟩ := parse_of_entries s.givenOnce_entries s.isTextOf_write
  rw [hparse, hoverrides.eq_of_entries]

end Written

end Settings

open Settings

/-- For every text of a settings object that gives each known option at most once, in any order and
among any members that are not known: the settings are accepted exactly if nothing that is given is
blank, and are then the default ones with just the given options replaced. Otherwise the error names
the blank option that is checked first, or, if no name is blank, the first blank dependency. Written
settings are read back. -/
theorem settings_override_given_options :
    (∀ (source : String) (entries : List Entry), GivenOnce entries →
      Json.IsTextOf source (.object (entries.map Entry.member)) →
      ((∃ s, parse source = .ok s) ↔ NamesFilled entries ∧ DependenciesFilled entries) ∧
      (∀ s, parse source = .ok s → Overrides entries s) ∧
      ∀ e, parse source = .error e →
        (∃ option, FirstBlankName entries option ∧
          e.chain = [s!"config option '{option.key}' must not be empty"]) ∨
        (NamesFilled entries ∧ ∃ texts index, .dependencies texts ∈ entries ∧
          FirstBlank texts index ∧
          e.chain = [s!"externalDependencies[{index}] must not be empty"])) ∧
    ∀ s : Settings, s.Filled → parse s.write = .ok s := by
  refine ⟨fun source entries honce hsource => ?_, fun s hfilled => ?_⟩
  · obtain ⟨made, hoverrides, hparse⟩ := parse_of_entries honce hsource
    refine ⟨?_, fun s hs => ?_, fun e he => ?_⟩
    · rw [← hoverrides.filled_iff, hparse]
      simp only [validate_eq_ok_iff, exists_and_left, exists_eq, and_true]
    · rw [hparse] at hs
      obtain ⟨-, rfl⟩ := validate_eq_ok_iff.mp hs
      exact hoverrides
    · rcases parse_eq_error honce hsource he with
        ⟨option, hfirst, rfl⟩ | ⟨hnames, texts, index, htexts, hfirst, rfl⟩
      · exact .inl ⟨option, hfirst, rfl⟩
      · exact .inr ⟨hnames, texts, index, htexts, hfirst, rfl⟩
  · rw [parse_write]
    exact validate_eq_ok_iff.mpr ⟨hfilled, rfl⟩

theorem settings_override_given_options_unknown_and_escaped :
    let source := "\x7b\"note\":null , \"envRefName\":\"\\u005Fe\"\x7d"
    let defaults : Settings := {}
    (∃ s, parse source = .ok s ∧ s.names.env = ⟨"_e"⟩ ∧ s.names.outer = ⟨"_outer"⟩ ∧
      s.environment = ["wscript"]) ∧
    parse defaults.write = .ok defaults := by
  intro source defaults
  let entries : List Entry := [.other "note" .null (by decide), .name .env "_e"]
  have honce : GivenOnce entries := by
    unfold GivenOnce
    decide
  have hvalue : Json.StringText "_e" ['"', '\\', 'u', '0', '0', '5', 'F', 'e', '"'] := by
    have hunit : Json.UnitText '_'.toNat ['0', '0', '5', 'F'] :=
      Json.UnitText.digits (by decide : ('0', 0) ∈ Json.hexDigits)
        (by decide : ('0', 0) ∈ Json.hexDigits) (by decide : ('5', 5) ∈ Json.hexDigits)
        (by decide : ('F', 15) ∈ Json.hexDigits)
    exact ⟨[['\\', 'u', '0', '0', '5', 'F'], ['e']], .cons (.unit hunit)
      (.cons (.plain (by decide) (by decide) (by decide)) .nil), rfl⟩
  have hblank : Json.Blanks [' '] := by simp [Json.Blanks]
  have hitems : Json.ItemsText (Json.MemberText (Json.ValueText 126))
      (entries.map Entry.member) _ :=
    .more (Json.memberText_quoted (Json.ValueText.of_scalarText .null) "note") hblank hblank
      (.one (Json.memberText_quoted (Json.ValueText.of_scalarText (.string hvalue)) "envRefName"))
  have hsource : Json.IsTextOf source (.object (entries.map Entry.member)) :=
    ⟨[], _, [], Json.blanks_nil,
      .inr (.object (.items Json.blanks_nil hitems Json.blanks_nil)), Json.blanks_nil, by decide⟩
  obtain ⟨hread, hwritten⟩ := settings_override_given_options
  obtain ⟨hiff, hoverrides, -⟩ := hread source entries honce hsource
  have hfilled : NamesFilled entries ∧ DependenciesFilled entries := by
    refine ⟨fun option text htext => ?_, fun texts htexts => ?_⟩
    · obtain ⟨rfl, rfl⟩ : option = .env ∧ text = "_e" := by simpa [entries] using htext
      exact not_blank_of_isBlankText (by decide)
    · simp [entries] at htexts
  obtain ⟨s, hs⟩ := hiff.mpr hfilled
  have hs' := hoverrides s hs
  refine ⟨⟨s, hs, ?_, ?_, ?_⟩, hwritten defaults filled_default⟩
  · exact hs'.given .env "_e" (by simp [entries])
  · exact hs'.kept .outer (by simp [entries])
  · exact hs'.environment (by simp [entries])

end VbsCompiler

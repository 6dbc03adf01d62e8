import Lox.CommandLine.Parser
import Mathlib.Data.List.Induction

/-!
# The form of a command line

Which command lines are understood, and what each of them settles. The order of the arguments before
a separator does not matter.
-/

set_option autoImplicit false

namespace Lox

def AsksForLog (argument : String) : Prop :=
  argument = "-v" ∨ argument = "--verbose"

/-- What names a script wherever it stands: a dash alone, and all that does not begin with one. -/
def NamesScript (argument : String) : Prop :=
  argument = "-" ∨ argument.toList.head? ≠ some '-'

instance : DecidablePred AsksForLog := fun argument =>
  inferInstanceAs (Decidable (argument = "-v" ∨ argument = "--verbose"))

instance : DecidablePred NamesScript := fun argument =>
  inferInstanceAs (Decidable (argument = "-" ∨ argument.toList.head? ≠ some '-'))

def scriptNames (before after : List String) : List String :=
  before.filter (NamesScript ·) ++ after

/-- Arguments before a separator and after it that are in order, and the settings they spell. -/
structure Spells (before after : List String) (settings : Settings) : Prop where
  known : ∀ argument ∈ before, AsksForLog argument ∨ NamesScript argument
  one_log : before.countP (AsksForLog ·) ≤ 1
  one_script : (scriptNames before after).length ≤ 1
  named : "" ∉ scriptNames before after
  verbose_eq : settings.verbose = before.any (AsksForLog ·)
  script_eq : settings.script = (scriptNames before after).head?

def Separates (arguments before after : List String) : Prop :=
  "--" ∉ before ∧ (arguments = before ∧ after = [] ∨ arguments = before ++ ["--"] ++ after)

theorem AsksForLog.not_namesScript {argument : String} (asks : AsksForLog argument) :
    ¬ NamesScript argument := by
  rcases asks with rfl | rfl
  · decide
  · decide

/-! ## Looks of an argument -/

def Argument.spelling : Argument → String
  | separator => "--"
  | long name none => "--" ++ name
  | long name (some value) => "--" ++ name ++ "=" ++ value
  | cluster letters => String.ofList ('-' :: letters)
  | positional text => text

theorem Argument.spelling_ofString (argument : String) :
    (ofString argument).spelling = argument := by
  rw [← String.toList_inj]
  unfold ofString
  split
  · next shape => rw [shape, spelling]; rfl
  · next spelled _ shape =>
      have parts := List.takeWhile_append_dropWhile (p := (· != '=')) (l := spelled)
      have stop := List.head?_dropWhile_not (p := (· != '=')) (l := spelled)
      cases value : spelled.dropWhile (· != '=') with
      | nil =>
          rw [value, List.append_nil] at parts
          simp [spelling, shape, parts]
      | cons sign value =>
          simp only [value, List.head?_cons, bne_eq_false_iff_eq] at stop
          subst stop
          rw [value] at parts
          simp [spelling, shape, parts]
  · next shape => rw [shape, spelling, String.toList_ofList]
  · rfl

theorem Argument.ofString_eq_separator_iff {argument : String} :
    ofString argument = .separator ↔ argument = "--" := by
  constructor
  · intro look
    have spelled := spelling_ofString argument
    rw [look] at spelled
    exact spelled.symm
  · rintro rfl
    rfl

theorem Argument.ofString_of_asksForLog {argument : String} (asks : AsksForLog argument) :
    ofString argument = .cluster ['v'] ∨ ofString argument = .long "verbose" none := by
  rcases asks with rfl | rfl
  · exact .inl rfl
  · exact .inr rfl

theorem Argument.ofString_of_namesScript {argument : String} (names : NamesScript argument) :
    ofString argument = .positional argument := by
  rcases names with rfl | other
  · rfl
  · unfold ofString
    split
    · next shape => simp [shape] at other
    · next shape => simp [shape] at other
    · next shape => simp [shape] at other
    · rfl

theorem Argument.namesScript_of_ofString {argument text : String}
    (look : ofString argument = .positional text) : NamesScript argument := by
  refine Decidable.byContradiction fun other => ?_
  simp only [NamesScript, not_or, Decidable.not_not] at other
  obtain ⟨notDash, begins⟩ := other
  unfold ofString at look
  split at look
  · cases look
  · dsimp only at look
    split at look <;> cases look
  · cases look
  · next notCluster =>
      cases shape : argument.toList with
      | nil => simp [shape] at begins
      | cons first rest =>
          obtain rfl : first = '-' := by simpa [shape] using begins
          cases rest with
          | nil => exact notDash (String.toList_inj.mp shape)
          | cons second rest => exact notCluster second rest shape

theorem Argument.ofString_eq_positional_iff {argument text : String} :
    ofString argument = .positional text ↔ NamesScript argument ∧ text = argument := by
  constructor
  · intro look
    have same := spelling_ofString argument
    rw [look] at same
    exact ⟨namesScript_of_ofString look, same⟩
  · intro spelled
    obtain ⟨names, rfl⟩ := spelled
    exact ofString_of_namesScript names

namespace Settings

/-! ## One argument -/

theorem checkScript_eq_ok_iff {settings result : Settings} :
    settings.checkScript = .ok result ↔ settings.script ≠ some "" ∧ result = settings := by
  unfold checkScript
  split
  · next empty => simp [empty]
  · next named => simp [named, eq_comm]

theorem raise_eq_ok_iff {settings result : Settings} {flag : Flag} :
    settings.raise flag = .ok result ↔
      flag = .verbose ∧ settings.script ≠ some "" ∧ settings.verbose = false ∧
        result = { settings with verbose := true } := by
  obtain ⟨script, verbose⟩ := settings
  unfold raise checkScript
  by_cases empty : script = some ""
  · simp [empty, bind, Except.bind]
  · cases flag <;> cases verbose <;> simp [empty, bind, Except.bind, eq_comm]

theorem raiseLetter_eq_ok_iff {settings result : Settings} {letter : Char} :
    settings.raiseLetter letter = .ok result ↔
      letter = 'v' ∧ settings.raise .verbose = .ok result := by
  unfold raiseLetter
  split
  · next flag found =>
    have spelled : flag.letter = letter := by simpa using List.find?_some found
    subst spelled
    cases flag with
    | verbose => simp [Flag.letter]
    | help => simp [raise_eq_ok_iff, Flag.letter]
    | version => simp [raise_eq_ok_iff, Flag.letter]
  · next unknown =>
    have other : letter ≠ 'v' := by
      intro same
      rw [same] at unknown
      exact absurd unknown (by decide)
    simp [other]

theorem raiseName_eq_ok_iff {settings result : Settings} {name : String}
    {value : Option String} :
    settings.raiseName name value = .ok result ↔
      name = "verbose" ∧ value = none ∧ settings.raise .verbose = .ok result := by
  unfold raiseName
  split
  · next flag found =>
    have spelled : flag.name = name := by simpa using List.find?_some found
    subst spelled
    cases flag with
    | verbose => simp [Flag.name]
    | help => simp [raise_eq_ok_iff, Flag.name]
    | version => simp [raise_eq_ok_iff, Flag.name]
  · simp
  · next unknown =>
    have other : name ≠ "verbose" := by
      intro same
      rw [same] at unknown
      exact absurd unknown (by decide)
    simp [other]

theorem bind_eq_ok_iff {Value Result : Type} {source : Except Notice Value}
    {continuation : Value → Except Notice Result} {result : Result} :
    source >>= continuation = .ok result ↔
      ∃ value, source = .ok value ∧ continuation value = .ok result := by
  cases source with
  | error notice => simp [bind, Except.bind]
  | ok value => simp [bind, Except.bind]

theorem raiseLetters_eq_ok_iff {settings result : Settings} {first : Char} {rest : List Char} :
    (first :: rest).foldlM raiseLetter settings = .ok result ↔
      first = 'v' ∧ rest = [] ∧ settings.raise .verbose = .ok result := by
  rw [List.foldlM_cons, bind_eq_ok_iff]
  simp only [raiseLetter_eq_ok_iff]
  constructor
  · intro taken
    obtain ⟨next, ⟨isV, raised⟩, others⟩ := taken
    cases rest with
    | nil =>
        cases others
        exact ⟨isV, rfl, raised⟩
    | cons second rest =>
        obtain ⟨last, again, _⟩ := bind_eq_ok_iff.mp (List.foldlM_cons.symm.trans others)
        obtain ⟨_, _, _, rfl⟩ := raise_eq_ok_iff.mp raised
        obtain ⟨_, raisedAgain⟩ := raiseLetter_eq_ok_iff.mp again
        obtain ⟨_, _, unset, _⟩ := raise_eq_ok_iff.mp raisedAgain
        cases unset
  · intro holds
    obtain ⟨isV, rfl, raised⟩ := holds
    exact ⟨result, ⟨isV, raised⟩, rfl⟩

/-- What one argument before a separator makes of some settings. -/
inductive Takes (settings : Settings) (argument : String) : Settings → Prop where
  | log :
      AsksForLog argument → settings.script ≠ some "" → settings.verbose = false →
      Takes settings argument { settings with verbose := true }
  | script :
      NamesScript argument → settings.script = none →
      Takes settings argument { settings with script := some argument }

theorem takePositional_eq_ok_iff {settings result : Settings} {text : String} :
    settings.takePositional text = .ok result ↔
      settings.script = none ∧ result = { settings with script := some text } := by
  unfold takePositional
  split
  · next found => simp [found]
  · next none => simp [none, eq_comm]

private theorem takes_iff_raise {settings next : Settings} {argument : String}
    (asks : AsksForLog argument) :
    settings.Takes argument next ↔ settings.raise .verbose = .ok next := by
  rw [raise_eq_ok_iff]
  constructor
  · intro takes
    cases takes with
    | log _ named unset => exact ⟨rfl, named, unset, rfl⟩
    | script names _ => exact absurd names asks.not_namesScript
  · intro raised
    obtain ⟨_, named, unset, rfl⟩ := raised
    exact .log asks named unset

private theorem not_takes {settings next : Settings} {argument : String}
    (notAsks : ¬ AsksForLog argument) (notNames : ¬ NamesScript argument) :
    ¬ settings.Takes argument next := by
  intro takes
  cases takes with
  | log asks _ _ => exact notAsks asks
  | script names _ => exact notNames names

private theorem takes_iff_takePositional {settings next : Settings} {argument : String}
    (names : NamesScript argument) :
    settings.Takes argument next ↔ settings.takePositional argument = .ok next := by
  rw [takePositional_eq_ok_iff]
  constructor
  · intro takes
    cases takes with
    | log asks _ _ => exact absurd names asks.not_namesScript
    | script _ free => exact ⟨free, rfl⟩
  · intro taken
    obtain ⟨free, rfl⟩ := taken
    exact .script names free

private theorem takes_iff_raiseName {settings next : Settings} {argument name : String}
    {value : Option String} (look : Argument.ofString argument = .long name value) :
    settings.Takes argument next ↔ settings.raiseName name value = .ok next := by
  have spelled := Argument.spelling_ofString argument
  rw [look] at spelled
  have notNames : ¬ NamesScript argument := by
    intro names
    cases look.symm.trans (Argument.ofString_of_namesScript names)
  rw [raiseName_eq_ok_iff]
  by_cases asks : AsksForLog argument
  · rw [takes_iff_raise asks]
    rcases Argument.ofString_of_asksForLog asks with short | long
    · rw [short] at look
      cases look
    · rw [long] at look
      cases look
      simp
  · refine ⟨fun takes => absurd takes (not_takes asks notNames), ?_⟩
    intro raised
    obtain ⟨rfl, rfl, _⟩ := raised
    exact absurd (.inr spelled.symm) asks

private theorem takes_iff_raiseLetters {settings next : Settings} {argument : String}
    {letters : List Char} (look : Argument.ofString argument = .cluster letters) :
    settings.Takes argument next ↔ letters.foldlM raiseLetter settings = .ok next := by
  have spelled := Argument.spelling_ofString argument
  rw [look] at spelled
  have notNames : ¬ NamesScript argument := by
    intro names
    cases look.symm.trans (Argument.ofString_of_namesScript names)
  cases letters with
  | nil => exact absurd (.inl spelled.symm) notNames
  | cons first rest =>
      rw [raiseLetters_eq_ok_iff]
      by_cases asks : AsksForLog argument
      · rw [takes_iff_raise asks]
        rcases Argument.ofString_of_asksForLog asks with short | long
        · rw [short] at look
          cases look
          simp
        · rw [long] at look
          cases look
      · refine ⟨fun takes => absurd takes (not_takes asks notNames), ?_⟩
        intro raised
        obtain ⟨rfl, rfl, _⟩ := raised
        exact absurd (.inl spelled.symm) asks

theorem takeAll_cons_eq_ok_iff {settings result : Settings} {argument : String}
    {rest : List String} (notSeparator : argument ≠ "--") :
    settings.takeAll (argument :: rest) = .ok result ↔
      ∃ next, settings.Takes argument next ∧ next.takeAll rest = .ok result := by
  rw [takeAll]
  cases look : Argument.ofString argument with
  | separator => exact absurd (Argument.ofString_eq_separator_iff.mp look) notSeparator
  | long name value => simp only [takes_iff_raiseName look, bind_eq_ok_iff]
  | cluster letters => simp only [takes_iff_raiseLetters look, bind_eq_ok_iff]
  | positional text =>
      obtain ⟨names, rfl⟩ := Argument.ofString_eq_positional_iff.mp look
      simp only [takes_iff_takePositional names, bind_eq_ok_iff]

/-- After the separator everything names a script, so that there is room for one argument. -/
theorem takeAll_separator_eq_ok_iff {settings result : Settings} {rest : List String} :
    settings.takeAll ("--" :: rest) = .ok result ↔
      rest = [] ∧ result = settings ∨
        ∃ text, rest = [text] ∧ settings.script = none ∧
          result = { settings with script := some text } := by
  change rest.foldlM takePositional settings = .ok result ↔ _
  cases rest with
  | nil => simp [pure, Except.pure, eq_comm]
  | cons text rest =>
      rw [List.foldlM_cons, bind_eq_ok_iff]
      simp only [takePositional_eq_ok_iff]
      constructor
      · intro taken
        obtain ⟨next, ⟨free, rfl⟩, others⟩ := taken
        cases rest with
        | nil =>
            cases others
            exact .inr ⟨text, rfl, free, rfl⟩
        | cons second rest =>
            obtain ⟨_, again, _⟩ := bind_eq_ok_iff.mp (List.foldlM_cons.symm.trans others)
            obtain ⟨taken, _⟩ := takePositional_eq_ok_iff.mp again
            cases taken
      · intro shape
        rcases shape with ⟨empty, _⟩ | ⟨_, same, free, rfl⟩
        · cases empty
        · cases same
          exact ⟨_, ⟨free, rfl⟩, rfl⟩

/-! ## Whole command lines -/

/-- Arguments that follow others go on from the settings these have reached. A separator among the
earlier ones counts for them too. -/
theorem takeAll_append (settings : Settings) (before rest : List String) :
    settings.takeAll (before ++ rest) = settings.takeAll before >>= fun reached =>
      reached.takeAll (if "--" ∈ before then "--" :: rest else rest) := by
  induction before generalizing settings with
  | nil => rfl
  | cons argument before ih =>
      by_cases separator : argument = "--"
      · subst separator
        rw [if_pos List.mem_cons_self]
        exact List.foldlM_append
      · have inside : "--" ∈ argument :: before ↔ "--" ∈ before := by simp [Ne.symm separator]
        rw [List.cons_append, takeAll, takeAll]
        cases look : Argument.ofString argument with
        | separator => exact absurd (Argument.ofString_eq_separator_iff.mp look) separator
        | long _ _ | cluster _ | positional _ => simp only [ih, inside, bind_assoc]

theorem takeAll_append_eq_ok_iff {settings result : Settings} {before rest : List String}
    (noSeparator : "--" ∉ before) :
    settings.takeAll (before ++ rest) = .ok result ↔
      ∃ next, settings.takeAll before = .ok next ∧ next.takeAll rest = .ok result := by
  rw [takeAll_append, if_neg noSeparator, bind_eq_ok_iff]

theorem takeAll_singleton_eq_ok_iff {settings result : Settings} {argument : String}
    (notSeparator : argument ≠ "--") :
    settings.takeAll [argument] = .ok result ↔ settings.Takes argument result := by
  rw [takeAll_cons_eq_ok_iff notSeparator]
  constructor
  · intro taken
    obtain ⟨next, takes, done⟩ := taken
    cases done
    exact takes
  · intro takes
    exact ⟨result, takes, rfl⟩

end Settings

theorem spells_nil_iff {settings : Settings} : Spells [] [] settings ↔ settings = .initial := by
  constructor
  · intro spells
    obtain ⟨_, _, _, _, verbose_eq, script_eq⟩ := spells
    exact congr (congrArg Settings.mk script_eq) verbose_eq
  · intro same
    rw [same]
    exact ⟨by simp, by simp, by simp [scriptNames], by simp [scriptNames], rfl, rfl⟩

theorem Spells.script_ne_empty {before after : List String} {settings : Settings}
    (spells : Spells before after settings) : settings.script ≠ some "" := by
  intro empty
  rw [spells.script_eq] at empty
  exact spells.named (List.mem_of_mem_head? empty)

theorem spells_concat_of_log {before : List String} {argument : String} {settings : Settings}
    (asks : AsksForLog argument) :
    Spells (before ++ [argument]) [] settings ↔
      settings.verbose = true ∧ Spells before [] { settings with verbose := false } := by
  have names : scriptNames (before ++ [argument]) [] = scriptNames before [] := by
    simp [scriptNames, asks.not_namesScript]
  have logs : (before ++ [argument]).countP (AsksForLog ·) = before.countP (AsksForLog ·) + 1 := by
    simp [asks]
  have logged : (before ++ [argument]).any (AsksForLog ·) = true := by simp [asks]
  constructor
  · intro spells
    obtain ⟨known, one_log, one_script, named, verbose_eq, script_eq⟩ := spells
    rw [logs] at one_log
    rw [names] at one_script named script_eq
    have unset : before.countP (AsksForLog ·) = 0 := by omega
    refine ⟨verbose_eq.trans logged, ?_, by omega, one_script, named, ?_, script_eq⟩
    · exact fun other member => known other (List.mem_append_left _ member)
    · simpa using (List.countP_eq_zero.mp unset)
  · intro shorter
    obtain ⟨set, known, one_log, one_script, named, verbose_eq, script_eq⟩ := shorter
    have unset : before.countP (AsksForLog ·) = 0 := by
      rw [List.countP_eq_zero]
      simpa using verbose_eq.symm
    refine ⟨?_, by omega, names ▸ one_script, names ▸ named, set.trans logged.symm,
      names ▸ script_eq⟩
    intro other member
    rcases List.mem_append.mp member with earlier | last
    · exact known other earlier
    · rw [List.mem_singleton.mp last]
      exact .inl asks

private theorem one_name_concat_iff {names : List String} {name : String}
    {script : Option String} :
    (names ++ [name]).length ≤ 1 ∧ "" ∉ names ++ [name] ∧ script = (names ++ [name]).head? ↔
      names = [] ∧ name ≠ "" ∧ script = some name := by
  cases names with
  | nil => simp [eq_comm]
  | cons first rest => simp

theorem spells_singleton_after {before : List String} {text : String} {settings : Settings} :
    Spells before [text] settings ↔
      settings.script = some text ∧ text ≠ "" ∧
        Spells before [] { settings with script := none } := by
  have names : scriptNames before [text] = scriptNames before [] ++ [text] := by
    simp [scriptNames]
  constructor
  · intro spells
    obtain ⟨known, one_log, one_script, named, verbose_eq, script_eq⟩ := spells
    rw [names] at one_script named script_eq
    obtain ⟨none, nonempty, script⟩ := one_name_concat_iff.mp ⟨one_script, named, script_eq⟩
    exact ⟨script, nonempty, known, one_log, by simp [none], by simp [none], verbose_eq,
      by simp [none]⟩
  · intro shorter
    obtain ⟨script, nonempty, known, one_log, _, _, verbose_eq, script_eq⟩ := shorter
    have none : scriptNames before [] = [] := List.head?_eq_none_iff.mp script_eq.symm
    obtain ⟨one_script, named, script_eq⟩ :=
      one_name_concat_iff.mpr ⟨none, nonempty, script⟩
    exact ⟨known, one_log, names ▸ one_script, names ▸ named, verbose_eq, names ▸ script_eq⟩

/-- A name is as good before the separator as after it. -/
theorem spells_concat_of_name {before : List String} {argument : String} {settings : Settings}
    (name : NamesScript argument) :
    Spells (before ++ [argument]) [] settings ↔ Spells before [argument] settings := by
  have notLog : ¬ AsksForLog argument := fun asks => asks.not_namesScript name
  have names : scriptNames (before ++ [argument]) [] = scriptNames before [argument] := by
    simp [scriptNames, name]
  have logs : (before ++ [argument]).countP (AsksForLog ·) = before.countP (AsksForLog ·) := by
    simp [notLog]
  have logged : (before ++ [argument]).any (AsksForLog ·) = before.any (AsksForLog ·) := by
    simp [notLog]
  constructor
  · intro spells
    obtain ⟨known, one_log, one_script, named, verbose_eq, script_eq⟩ := spells
    rw [logs] at one_log
    rw [names] at one_script named script_eq
    refine ⟨?_, one_log, one_script, named, verbose_eq.trans logged, script_eq⟩
    exact fun other member => known other (List.mem_append_left _ member)
  · intro spells
    obtain ⟨known, one_log, one_script, named, verbose_eq, script_eq⟩ := spells
    rw [← logs] at one_log
    rw [← names] at one_script named script_eq
    refine ⟨?_, one_log, one_script, named, verbose_eq.trans logged.symm, script_eq⟩
    intro other member
    rcases List.mem_append.mp member with earlier | last
    · exact known other earlier
    · rw [List.mem_singleton.mp last]
      exact .inr name

theorem spells_concat_iff {before : List String} {argument : String} {settings : Settings} :
    Spells (before ++ [argument]) [] settings ↔
      ∃ earlier, Spells before [] earlier ∧ earlier.Takes argument settings ∧
        settings.script ≠ some "" := by
  constructor
  · intro spells
    have named := spells.script_ne_empty
    rcases spells.known argument (by simp) with asks | name
    · obtain ⟨set, earlier⟩ := (spells_concat_of_log asks).mp spells
      refine ⟨_, earlier, ?_, named⟩
      have takes : Settings.Takes { settings with verbose := false } argument
          { settings with verbose := true } := .log asks named rfl
      rwa [← set] at takes
    · obtain ⟨script, _, earlier⟩ :=
        spells_singleton_after.mp ((spells_concat_of_name name).mp spells)
      refine ⟨_, earlier, ?_, named⟩
      have takes : Settings.Takes { settings with script := none } argument
          { settings with script := some argument } := .script name rfl
      rwa [← script] at takes
  · intro shorter
    obtain ⟨earlier, spells, takes, named⟩ := shorter
    cases takes with
    | log asks _ unset =>
        refine (spells_concat_of_log asks).mpr ⟨rfl, ?_⟩
        rwa [← unset]
    | script name free =>
        refine (spells_concat_of_name name).mpr (spells_singleton_after.mpr ⟨rfl, ?_, ?_⟩)
        · simpa using named
        · rwa [← free]

theorem Settings.Takes.script_ne_empty {settings next : Settings} {argument : String}
    (takes : settings.Takes argument next) (named : next.script ≠ some "") :
    settings.script ≠ some "" := by
  cases takes with
  | log _ named _ => exact named
  | script _ free => simp [free]

/-- Without a separator. A script without a name is refused in the end, so that none is met on the
way. -/
theorem takeAll_eq_ok_iff_spells {before : List String} {settings : Settings}
    (noSeparator : "--" ∉ before) :
    Settings.initial.takeAll before = .ok settings ∧ settings.script ≠ some "" ↔
      Spells before [] settings := by
  induction before using List.reverseRecOn generalizing settings with
  | nil =>
      rw [spells_nil_iff]
      constructor
      · intro taken
        obtain ⟨nothing, _⟩ := taken
        cases nothing
        rfl
      · intro same
        rw [same]
        exact ⟨rfl, by simp [Settings.initial]⟩
  | append_singleton before argument ih =>
      have notSeparator : argument ≠ "--" := by
        intro same
        rw [same] at noSeparator
        exact noSeparator (List.mem_append_right _ (List.mem_singleton_self _))
      have noSeparator : "--" ∉ before := fun member =>
        noSeparator (List.mem_append_left _ member)
      -- The induction is from behind: one more argument is checked against the settings before it.
      rw [spells_concat_iff, Settings.takeAll_append_eq_ok_iff noSeparator]
      simp only [Settings.takeAll_singleton_eq_ok_iff notSeparator, ← ih noSeparator]
      constructor
      · intro split
        obtain ⟨⟨next, taken, takes⟩, named⟩ := split
        exact ⟨next, ⟨taken, takes.script_ne_empty named⟩, takes, named⟩
      · intro shorter
        obtain ⟨next, ⟨taken, _⟩, takes, named⟩ := shorter
        exact ⟨⟨next, taken, takes⟩, named⟩

theorem parse_eq_ok_iff {arguments : List String} {settings : Settings} :
    Settings.parse arguments = .ok settings ↔
      Settings.initial.takeAll arguments = .ok settings ∧ settings.script ≠ some "" := by
  rw [Settings.parse, Settings.bind_eq_ok_iff]
  simp only [Settings.checkScript_eq_ok_iff]
  constructor
  · intro checked
    obtain ⟨_, taken, named, rfl⟩ := checked
    exact ⟨taken, named⟩
  · intro checked
    obtain ⟨taken, named⟩ := checked
    exact ⟨settings, taken, named, rfl⟩

theorem exists_separates (arguments : List String) :
    ∃ before after, Separates arguments before after := by
  by_cases member : "--" ∈ arguments
  · obtain ⟨before, after, rfl, first⟩ := List.eq_append_cons_of_mem member
    exact ⟨before, after, first, .inr (by simp)⟩
  · exact ⟨arguments, [], member, .inl ⟨rfl, rfl⟩⟩

theorem Separates.parse_eq_ok_iff_spells {arguments before after : List String}
    (separates : Separates arguments before after) {settings : Settings} :
    Settings.parse arguments = .ok settings ↔ Spells before after settings := by
  obtain ⟨noSeparator, ⟨rfl, rfl⟩ | rfl⟩ := separates
  · rw [parse_eq_ok_iff, takeAll_eq_ok_iff_spells noSeparator]
  · rw [parse_eq_ok_iff, List.append_assoc, List.singleton_append,
      Settings.takeAll_append_eq_ok_iff noSeparator]
    simp only [Settings.takeAll_separator_eq_ok_iff]
    constructor
    · intro split
      obtain ⟨⟨next, taken, ⟨rfl, rfl⟩ | ⟨text, rfl, free, rfl⟩⟩, named⟩ := split
      · exact (takeAll_eq_ok_iff_spells noSeparator).mp ⟨taken, named⟩
      · refine spells_singleton_after.mpr ⟨rfl, by simpa using named, ?_⟩
        rw [← free]
        exact (takeAll_eq_ok_iff_spells noSeparator).mp ⟨taken, by simp [free]⟩
    · intro spells
      have named := spells.script_ne_empty
      cases after with
      | nil =>
          obtain ⟨taken, _⟩ := (takeAll_eq_ok_iff_spells noSeparator).mpr spells
          exact ⟨⟨settings, taken, .inl ⟨rfl, rfl⟩⟩, named⟩
      | cons text rest =>
          obtain rfl : rest = [] := by
            have one := spells.one_script
            simp only [scriptNames, List.length_append, List.length_cons] at one
            exact List.eq_nil_of_length_eq_zero (by omega)
          obtain ⟨script, _, earlier⟩ := spells_singleton_after.mp spells
          obtain ⟨taken, _⟩ := (takeAll_eq_ok_iff_spells noSeparator).mpr earlier
          refine ⟨⟨_, taken, .inr ⟨text, rfl, rfl, ?_⟩⟩, named⟩
          rw [← script]

private theorem eq_of_perm_of_length_le_one {names shuffled : List String}
    (perm : names.Perm shuffled) (one : names.length ≤ 1) : shuffled = names := by
  match names with
  | [] => exact perm.symm.eq_nil
  | [name] => exact List.perm_singleton.mp perm.symm
  | first :: second :: rest =>
      simp only [List.length_cons] at one
      omega

theorem Spells.perm {before shuffled after : List String} {settings : Settings}
    (spells : Spells before after settings) (perm : before.Perm shuffled) :
    Spells shuffled after settings := by
  obtain ⟨known, one_log, one_script, named, verbose_eq, script_eq⟩ := spells
  have names : scriptNames shuffled after = scriptNames before after :=
    eq_of_perm_of_length_le_one ((perm.filter _).append_right after) one_script
  rw [← names] at one_script named script_eq
  refine ⟨fun argument member => known argument (perm.mem_iff.mpr member), ?_, one_script, named,
    verbose_eq.trans perm.any_eq, script_eq⟩
  rwa [← perm.countP_eq]

/-- A command line is understood exactly if it has the form of one, and the order of the arguments
before the separator is not part of it. -/
theorem parse_eq_ok_iff_form (arguments : List String) (settings : Settings) :
    (Settings.parse arguments = .ok settings ↔
      ∃ before after, Separates arguments before after ∧ Spells before after settings) ∧
    ∀ before after shuffled others,
      Separates arguments before after → Separates others shuffled after →
        before.Perm shuffled →
          (Settings.parse others = .ok settings ↔ Settings.parse arguments = .ok settings) := by
  refine ⟨?_, ?_⟩
  · obtain ⟨before, after, separates⟩ := exists_separates arguments
    constructor
    · intro parsed
      exact ⟨before, after, separates, separates.parse_eq_ok_iff_spells.mp parsed⟩
    · intro form
      obtain ⟨before, after, separates, spells⟩ := form
      exact separates.parse_eq_ok_iff_spells.mpr spells
  · intro before after shuffled others separates othersSeparate perm
    rw [separates.parse_eq_ok_iff_spells, othersSeparate.parse_eq_ok_iff_spells]
    exact ⟨fun spells => spells.perm perm.symm, fun spells => spells.perm perm⟩

/-- A dash alone, a flag and a separator with nothing behind it, in both orders. -/
theorem parse_of_reordered :
    Settings.parse ["-", "--verbose", "--"] = .ok ⟨some "-", true⟩ ∧
      Settings.parse ["--verbose", "-", "--"] = .ok ⟨some "-", true⟩ := by
  obtain ⟨form, order⟩ := parse_eq_ok_iff_form ["-", "--verbose", "--"] ⟨some "-", true⟩
  have separates : Separates ["-", "--verbose", "--"] ["-", "--verbose"] [] :=
    ⟨by decide, .inr rfl⟩
  have reordered : Separates ["--verbose", "-", "--"] ["--verbose", "-"] [] :=
    ⟨by decide, .inr rfl⟩
  have spells : Spells ["-", "--verbose"] [] ⟨some "-", true⟩ :=
    ⟨by decide, by decide, by decide, by decide, by decide, by decide⟩
  have parsed := form.mpr ⟨_, _, separates, spells⟩
  exact ⟨parsed, (order _ _ _ _ separates reordered (.swap _ _ _)).mpr parsed⟩

end Lox

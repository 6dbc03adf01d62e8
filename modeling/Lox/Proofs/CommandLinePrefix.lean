import Lox.Proofs.CommandLineForm

/-!
# Command lines that go on

What the front of a command line settles, whatever is written behind it: its first mistake or
question stands. One mistake alone may be overtaken, the script without a name, which is noticed
late.
-/

set_option autoImplicit false

namespace Lox

/-- An option that asks for a flag: its long name without a value, or its letter in a cluster. -/
inductive AsksFor (flag : Flag) : String → Prop where
  | name : AsksFor flag ("--" ++ flag.name)
  | letter {letters : List Char} :
      flag.letter ∈ letters → letters.head? ≠ some '-' →
      AsksFor flag (String.ofList ('-' :: letters))

def OptionBehindEmpty (arguments : List String) : Prop :=
  ∃ before between option rest flag,
    arguments = before ++ "" :: between ++ option :: rest ∧
      "--" ∉ before ++ between ∧ AsksFor flag option

theorem AsksFor.ne_separator {flag : Flag} {option : String} (asks : AsksFor flag option) :
    option ≠ "--" := by
  cases asks with
  | name => cases flag <;> decide
  | @letter letters _ cluster =>
      intro same
      have shape := congrArg String.toList same
      rw [String.toList_ofList] at shape
      rw [(List.cons.inj shape).2] at cluster
      exact cluster rfl

namespace Settings

/-- What is settled stays settled: a script that is named and a log that is asked for. -/
structure Grows (earlier later : Settings) : Prop where
  script : earlier.script = none ∨ later.script = earlier.script
  verbose : earlier.verbose = true → later.verbose = true

theorem Grows.refl (settings : Settings) : settings.Grows settings :=
  ⟨.inr rfl, id⟩

theorem Grows.trans {first second third : Settings} (left : first.Grows second)
    (right : second.Grows third) : first.Grows third := by
  refine ⟨?_, right.verbose ∘ left.verbose⟩
  rcases left.script with free | same
  · exact .inl free
  · rw [← same]
    exact right.script

theorem Grows.script_eq {earlier later : Settings} (grows : earlier.Grows later) {script : String}
    (named : earlier.script = some script) : later.script = some script := by
  rcases grows.script with free | same
  · rw [free] at named
    cases named
  · rw [same, named]

theorem Takes.grows {settings next : Settings} {argument : String}
    (takes : settings.Takes argument next) : settings.Grows next := by
  cases takes with
  | log _ _ _ => exact ⟨.inr rfl, fun _ => rfl⟩
  | script _ free => exact ⟨.inl free, id⟩

theorem grows_of_takeAll {settings result : Settings} {arguments : List String}
    (taken : settings.takeAll arguments = .ok result) : settings.Grows result := by
  induction arguments generalizing settings with
  | nil =>
      cases taken
      exact .refl _
  | cons argument rest ih =>
      by_cases separator : argument = "--"
      · subst separator
        rcases takeAll_separator_eq_ok_iff.mp taken with ⟨_, rfl⟩ | ⟨_, _, free, rfl⟩
        · exact .refl _
        · exact ⟨.inl free, id⟩
      · obtain ⟨next, takes, others⟩ := (takeAll_cons_eq_ok_iff separator).mp taken
        exact takes.grows.trans (ih others)

/-- No argument is taken behind a script without a name, but for the separator. -/
theorem not_takes_of_empty {settings next : Settings} {argument : String}
    (empty : settings.script = some "") : ¬ settings.Takes argument next := by
  intro takes
  cases takes with
  | log _ named _ => exact named empty
  | script _ free => exact nomatch free.symm.trans empty

end Settings

/-! ## Refused command lines -/

theorem parse_eq_error_iff {arguments : List String} {notice : Notice} :
    Settings.parse arguments = .error notice ↔
      Settings.initial.takeAll arguments = .error notice ∨
        notice = .emptyScript ∧
          ∃ settings, Settings.initial.takeAll arguments = .ok settings ∧
            settings.script = some "" := by
  rw [Settings.parse]
  cases taken : Settings.initial.takeAll arguments with
  | error met => simp [bind, Except.bind]
  | ok settings =>
      by_cases empty : settings.script = some ""
      · simp [bind, Except.bind, Settings.checkScript, empty, eq_comm]
      · simp [bind, Except.bind, Settings.checkScript, empty]

theorem parse_append_of_takeAll_eq_error {arguments : List String} {notice : Notice}
    (met : Settings.initial.takeAll arguments = .error notice) (more : List String) :
    Settings.parse (arguments ++ more) = .error notice := by
  rw [Settings.parse, Settings.takeAll_append, met]
  rfl

theorem takeAll_ne_ok_of_option {arguments : List String} (option : OptionBehindEmpty arguments)
    (settings : Settings) : Settings.initial.takeAll arguments ≠ .ok settings := by
  obtain ⟨before, between, option, rest, flag, rfl, noSeparator, asks⟩ := option
  rw [List.mem_append, not_or] at noSeparator
  intro taken
  rw [List.append_assoc, Settings.takeAll_append_eq_ok_iff noSeparator.1] at taken
  obtain ⟨atName, _, named⟩ := taken
  rw [List.cons_append, Settings.takeAll_cons_eq_ok_iff (by decide)] at named
  obtain ⟨atEmpty, takes, behind⟩ := named
  have empty : atEmpty.script = some "" := by
    cases takes with
    | log asks _ _ => exact absurd asks (by decide)
    | script _ _ => rfl
  obtain ⟨atOption, between, last⟩ := (Settings.takeAll_append_eq_ok_iff noSeparator.2).mp behind
  obtain ⟨_, takesOption, _⟩ := (Settings.takeAll_cons_eq_ok_iff asks.ne_separator).mp last
  have stillEmpty := (Settings.grows_of_takeAll between).script_eq empty
  exact Settings.not_takes_of_empty stillEmpty takesOption

theorem parse_of_parse_append {arguments more : List String} {settings : Settings}
    (parsed : Settings.parse (arguments ++ more) = .ok settings) :
    ∃ earlier, Settings.parse arguments = .ok earlier ∧ earlier.Grows settings := by
  rw [parse_eq_ok_iff, Settings.takeAll_append, Settings.bind_eq_ok_iff] at parsed
  obtain ⟨⟨earlier, taken, others⟩, named⟩ := parsed
  have grows := Settings.grows_of_takeAll others
  refine ⟨earlier, parse_eq_ok_iff.mpr ⟨taken, ?_⟩, grows⟩
  exact fun empty => named (grows.script_eq empty)

/-- The first problem of a command line decides, whatever follows. Only a script without a name may
be overtaken by another problem, and not if an option behind it has made it noticed. A command line
that is understood settles no less than its front. -/
theorem parse_append (arguments more : List String) :
    (∀ notice, Settings.parse arguments = .error notice → notice ≠ .emptyScript →
      Settings.parse (arguments ++ more) = .error notice) ∧
    (Settings.parse arguments = .error .emptyScript →
      (∃ notice, Settings.parse (arguments ++ more) = .error notice) ∧
        (OptionBehindEmpty arguments →
          Settings.parse (arguments ++ more) = .error .emptyScript)) ∧
    ∀ settings, Settings.parse (arguments ++ more) = .ok settings →
      ∃ earlier, Settings.parse arguments = .ok earlier ∧
        (earlier.script = none ∨ earlier.script = settings.script) ∧
        (earlier.verbose = true → settings.verbose = true) := by
  refine ⟨?_, ?_, ?_⟩
  · intro notice refused notEmpty
    rcases parse_eq_error_iff.mp refused with met | ⟨empty, _⟩
    · exact parse_append_of_takeAll_eq_error met more
    · exact absurd empty notEmpty
  · intro refused
    refine ⟨?_, fun option => ?_⟩
    · cases outcome : Settings.parse (arguments ++ more) with
      | error notice => exact ⟨notice, rfl⟩
      | ok settings =>
          obtain ⟨_, parsed, _⟩ := parse_of_parse_append outcome
          exact nomatch refused.symm.trans parsed
    · rcases parse_eq_error_iff.mp refused with met | ⟨_, settings, taken, _⟩
      · exact parse_append_of_takeAll_eq_error met more
      · exact absurd taken (takeAll_ne_ok_of_option option settings)
  · intro settings parsed
    obtain ⟨earlier, earlierParsed, grows⟩ := parse_of_parse_append parsed
    exact ⟨earlier, earlierParsed, grows.script.imp_right Eq.symm, grows.verbose⟩

/-- A letter of a cluster that is repeated before help is asked for, one that makes the empty name
noticed before that, and a script in front of a log. -/
theorem parse_append_of_clusters :
    (Settings.parse ["-vvh"] = .error .repeatedVerbose ∧
      Settings.parse (["-vvh"] ++ ["", "--"]) = .error .repeatedVerbose) ∧
    (Settings.parse ["", "-vh"] = .error .emptyScript ∧ OptionBehindEmpty ["", "-vh"] ∧
      Settings.parse (["", "-vh"] ++ ["b", "--bogus"]) = .error .emptyScript) ∧
    Settings.parse (["a"] ++ ["-v"]) = .ok ⟨some "a", true⟩ ∧
      ∃ earlier, Settings.parse ["a"] = .ok earlier ∧
        (earlier.script = none ∨ earlier.script = some "a") := by
  have repeated : Settings.parse ["-vvh"] = .error .repeatedVerbose := rfl
  have empty : Settings.parse ["", "-vh"] = .error .emptyScript := rfl
  have asks : AsksFor .verbose (String.ofList ['-', 'v', 'h']) := .letter (by decide) (by decide)
  have option : OptionBehindEmpty ["", "-vh"] :=
    ⟨[], [], "-vh", [], .verbose, rfl, by decide, asks⟩
  have parsed : Settings.parse (["a"] ++ ["-v"]) = .ok ⟨some "a", true⟩ := rfl
  obtain ⟨earlier, earlierParsed, script, _⟩ := (parse_append ["a"] ["-v"]).2.2 _ parsed
  exact ⟨⟨repeated, (parse_append ["-vvh"] ["", "--"]).1 _ repeated nofun⟩,
    ⟨empty, option, ((parse_append ["", "-vh"] ["b", "--bogus"]).2.1 empty).2 option⟩,
    parsed, earlier, earlierParsed, script⟩

end Lox

import Lox.Proofs.LogLines
import Lox.Proofs.PathWalk
import Lox.Proofs.SessionTranscript

/-!
# Exit statuses

How a run ends, for every command line, file system and input: which status stands for what, and
what has been written by then. A script is listed whole or not at all.
-/

set_option autoImplicit false

namespace Lox

/-- How a run ends on a console without limits. -/
def ending (system : System) (arguments : List String) (input : ByteArray) : Ending :=
  .ofResult ((run system arguments input).run (.empty none none))

namespace FileSystem

/-- A path leads to a file that is the UTF-8 form of a text. -/
def Holds (files : FileSystem) (path source : String) : Prop :=
  files.exists? path = .ok true ∧ files.readBytes path = .ok source.toUTF8

/-- A path cannot be checked, or what it leads to cannot be read or is no text. -/
def Fails (files : FileSystem) (path : String) : Prop :=
  (∃ fault, files.exists? path = .error fault) ∨
    files.exists? path = .ok true ∧
      ((∃ fault, files.readBytes path = .error fault) ∨
        ∃ content, files.readBytes path = .ok content ∧ ¬ content.IsValidUTF8)

end FileSystem

/-- How listing a script ends, by what its path leads to. -/
structure EndsScript (files : FileSystem) (log : Log) (path : String) (ending : Ending) : Prop where
  missing : ending.status = 66 ↔ files.exists? path = .ok false
  unreadable : ending.status = 1 ↔ files.Fails path
  erroneous : ending.status = 65 ↔
    ∃ source, files.Holds path source ∧ (lex source).errors ≠ []
  clean : ending.status = 0 ↔ ∃ source, files.Holds path source ∧ (lex source).errors = []
  -- a path that does not exist is told, and nothing else is
  told : ending.status = 66 →
    ending.out = ByteArray.empty ∧
      ending.err = ("file does not seem to exist " ++ path ++ "\n").toUTF8
  silent : ending.status = 1 → ending.out = ByteArray.empty ∧ ending.err = ByteArray.empty
  listed : ∀ source, files.Holds path source →
    ending.out = (String.join ((lex source).tokens.map Token.listingLine)).toUTF8 ∧
      (lex source).tokens.getLast? = some (.endOfSource (lineCount source.toList)) ∧
      ∃ logged, log.Writes (scriptRecord path source :: records source) logged ∧
        ending.err = (logged ++ String.join ((lex source).errors.map LexicalError.report)).toUTF8
  unlogged : log.Off → ∀ source, files.Holds path source →
    ending.err = (String.join ((lex source).errors.map LexicalError.report)).toUTF8 ∧
      (ending.err = ByteArray.empty ↔ ending.status = 0)

/-! ## Scripts -/

theorem decodeText_eq_error_iff {bytes : ByteArray} :
    (∃ fault, decodeText bytes = .error fault) ↔ ¬ bytes.IsValidUTF8 := by
  rw [decodeText, String.fromUTF8?]
  by_cases valid : bytes.IsValidUTF8
  · simp [valid]
  · simp [valid]

namespace FileSystem

def source? (files : FileSystem) (path : String) : Except Fault (Option String) :=
  match files.exists? path with
  | .error fault => .error fault
  | .ok false => .ok none
  | .ok true => (files.readText path).map some

variable {files : FileSystem} {path source : String}

theorem readText_eq_ok_iff :
    files.readText path = .ok source ↔ files.readBytes path = .ok source.toUTF8 := by
  rw [readText]
  cases files.readBytes path with
  | error fault => simp [bind, Except.bind]
  | ok content =>
      rw [Except.ok.injEq]
      exact decodeText_eq_ok_iff.trans eq_comm

theorem readText_eq_error_iff :
    (∃ fault, files.readText path = .error fault) ↔
      (∃ fault, files.readBytes path = .error fault) ∨
        ∃ content, files.readBytes path = .ok content ∧ ¬ content.IsValidUTF8 := by
  rw [readText]
  cases files.readBytes path with
  | error fault => simp [bind, Except.bind]
  | ok content => simp [bind, Except.bind, decodeText_eq_error_iff]

theorem source?_eq_none_iff :
    files.source? path = .ok none ↔ files.exists? path = .ok false := by
  rw [source?]
  split
  · next unchecked => simp [unchecked]
  · next missing => simp [missing]
  · next found => cases files.readText path <;> simp [found, Except.map]

theorem source?_eq_some_iff :
    files.source? path = .ok (some source) ↔ files.Holds path source := by
  rw [Holds, ← readText_eq_ok_iff, source?]
  split
  · next unchecked => simp [unchecked]
  · next missing => simp [missing]
  · next found => cases files.readText path <;> simp [found, Except.map]

theorem source?_eq_error_iff :
    (∃ fault, files.source? path = .error fault) ↔ files.Fails path := by
  rw [Fails, ← readText_eq_error_iff, source?]
  split
  · next unchecked => simp [unchecked]
  · next missing => simp [missing]
  · next found => cases files.readText path <;> simp [found, Except.map]

end FileSystem

/-- What is done with the text of a script, or for want of it. -/
def listScript (log : Log) (path : String) : Option String → ConsoleM Outcome
  | none => do
      put .err ("file does not seem to exist " ++ path ++ "\n")
      return .missingScript
  | some source => do
      log.tell (scriptRecord path source)
      return .listed (← log.listSource source)

theorem runScript_eq (files : FileSystem) (log : Log) (path : String) :
    runScript files log path = liftFault (files.source? path) >>= listScript log path := by
  rw [runScript, FileSystem.source?]
  cases files.exists? path with
  | error fault => rfl
  | ok found =>
      cases found with
      | false => rfl
      | true =>
          simp only
          cases files.readText path with
          | error fault => rfl
          | ok source => rfl

theorem exists_run_listScript (log : Log) (path source : String) :
    ∃ logged, log.Writes (scriptRecord path source :: records source) logged ∧
      (listScript log path (some source)).run (.empty none none) =
        .ok (.listed (lex source).hasErrors)
          (.holding (tokenLines source) (logged ++ errorLines source)) := by
  obtain ⟨first, firstWritten, told⟩ := log.exists_run_tell (scriptRecord path source) "" ""
  obtain ⟨others, othersWritten, listed⟩ := log.exists_run_listSource source "" ("" ++ first)
  refine ⟨first ++ others, firstWritten.append othersWritten, ?_⟩
  rw [listScript, Console.empty_eq_holding, EStateM.run_bind, told]
  change (do return .listed (← log.listSource source) : ConsoleM Outcome).run _ = _
  rw [EStateM.run_bind, listed]
  simp only [String.empty_append, String.append_assoc]
  rfl

/-! ## Endings -/

theorem ending_of_script {arguments : List String} {path : String} {verbose : Bool}
    (parsed : Settings.parse arguments = .ok ⟨some path, verbose⟩) (system : System)
    (input : ByteArray) :
    ending system arguments input =
      .ofResult ((runScript system.files (system.log verbose) path).run (.empty none none)) := by
  simp only [ending, run, parsed]

theorem ending_of_prompt {arguments : List String} {verbose : Bool}
    (parsed : Settings.parse arguments = .ok ⟨none, verbose⟩) (system : System)
    (input : ByteArray) :
    (ending system arguments input).status = 0 ∨ (ending system arguments input).status = 1 := by
  obtain ⟨text, _, ran⟩ := exists_run_session (system.log verbose) input
  rw [ending, run_eq_session parsed rfl, EStateM.run_bind, ran]
  cases firstFault? (entries input) with
  | none => exact .inl rfl
  | some fault => exact .inr rfl

theorem Notice.isRefusal_eq_false_iff {notice : Notice} :
    notice.isRefusal = false ↔ notice = .help ∨ notice = .version := by
  cases notice <;> simp [isRefusal]

theorem ending_of_notice {arguments : List String} {notice : Notice}
    (answered : Settings.parse arguments = .error notice) (system : System) (input : ByteArray) :
    ending system arguments input =
      if notice = .help ∨ notice = .version then
        ⟨0, none, notice.written.toUTF8, ByteArray.empty⟩
      else ⟨64, none, ByteArray.empty, notice.written.toUTF8⟩ := by
  have ran : run system arguments input = showNotice notice := by simp only [run, answered]
  rw [ending, ran, showNotice, EStateM.run_bind, Console.empty_eq_holding, run_put_holding,
    Notice.outcome]
  cases refusal : notice.isRefusal with
  | true =>
      have mistake := mt Notice.isRefusal_eq_false_iff.mpr (ne_false_of_eq_true refusal)
      rw [if_neg mistake]
      simp only [↓reduceIte, String.empty_append]
      rfl
  | false =>
      rw [if_pos (Notice.isRefusal_eq_false_iff.mp refusal)]
      simp only [Bool.false_eq_true, ↓reduceIte, String.empty_append]
      rfl

theorem status_listed (lexing : Lexing) :
    (Outcome.listed lexing.hasErrors).status = if lexing.errors = [] then 0 else 65 := by
  rw [Lexing.hasErrors]
  cases lexing.errors with
  | nil => rfl
  | cons => rfl

section Script

open FileSystem

variable {files : FileSystem} {path : String} (log : Log)

theorem endsScript_of_fault {fault : Fault} (unread : files.source? path = .error fault) :
    EndsScript files log path
      (.ofResult ((runScript files log path).run (.empty none none))) := by
  have textless (source : String) : ¬ files.Holds path source := by
    simp [← source?_eq_some_iff, unread]
  have ended : Ending.ofResult ((runScript files log path).run (.empty none none)) =
      ⟨1, some fault.message, ByteArray.empty, ByteArray.empty⟩ := by
    rw [runScript_eq, unread]
    rfl
  rw [ended]
  exact
    { missing := by simp [← source?_eq_none_iff, unread]
      unreadable := iff_of_true rfl (source?_eq_error_iff.mp ⟨fault, unread⟩)
      erroneous := by simp [textless]
      clean := by simp [textless]
      told := by simp
      silent := by simp
      listed := by simp [textless]
      unlogged := by simp [textless] }

theorem endsScript_of_missing (unfound : files.source? path = .ok none) :
    EndsScript files log path
      (.ofResult ((runScript files log path).run (.empty none none))) := by
  have textless (source : String) : ¬ files.Holds path source := by
    simp [← source?_eq_some_iff, unfound]
  have ended : Ending.ofResult ((runScript files log path).run (.empty none none)) =
      ⟨66, none, ByteArray.empty,
        ("file does not seem to exist " ++ path ++ "\n").toUTF8⟩ := by
    rw [runScript_eq, unfound]
    change Ending.ofResult ((listScript log path none).run _) = _
    rw [listScript, Console.empty_eq_holding, EStateM.run_bind, run_put_holding,
      String.empty_append]
    rfl
  rw [ended]
  exact
    { missing := iff_of_true rfl (source?_eq_none_iff.mp unfound)
      unreadable := by simp [← source?_eq_error_iff, unfound]
      erroneous := by simp [textless]
      clean := by simp [textless]
      told := by simp
      silent := by simp
      listed := by simp [textless]
      unlogged := by simp [textless] }

theorem endsScript_of_source {source : String} (read : files.source? path = .ok (some source)) :
    EndsScript files log path
      (.ofResult ((runScript files log path).run (.empty none none))) := by
  have holds (other : String) : files.Holds path other ↔ source = other := by
    simp [← source?_eq_some_iff, read]
  have last : (lex source).tokens.getLast? = some (.endOfSource (lineCount source.toList)) := by
    rw [tokens_eq_dropLast, List.getLast?_concat]
  have silent : (errorLines source).toUTF8 = ByteArray.empty ↔ (lex source).errors = [] := by
    rw [String.toUTF8, String.toByteArray_eq_empty_iff, errorLines_eq_empty_iff]
  obtain ⟨logged, writes, ran⟩ := exists_run_listScript log path source
  have ended : Ending.ofResult ((runScript files log path).run (.empty none none)) =
      ⟨if (lex source).errors = [] then 0 else 65, none, (tokenLines source).toUTF8,
        (logged ++ errorLines source).toUTF8⟩ := by
    rw [runScript_eq, read]
    change Ending.ofResult ((listScript log path (some source)).run _) = _
    rw [ran, ← status_listed]
    rfl
  rw [ended]
  exact
    { missing := by
        rw [← source?_eq_none_iff, read]
        split <;> simp
      unreadable := by
        rw [← source?_eq_error_iff, read]
        split <;> simp
      erroneous := by simp [holds]
      clean := by simp [holds]
      told := by
        intro status
        split at status <;> cases status
      silent := by
        intro status
        split at status <;> cases status
      listed := by
        intro other same
        obtain rfl := (holds other).mp same
        exact ⟨rfl, last, logged, writes, rfl⟩
      unlogged := by
        intro off other same
        obtain rfl := (holds other).mp same
        rw [writes.eq_empty off, String.empty_append]
        refine ⟨rfl, silent.trans ?_⟩
        simp }

end Script

/-- The whole program, from its command line to its exit status. A command line that is not
understood is answered before any file or input is looked at. -/
theorem ending_consistent (system : System) (arguments : List String) (input : ByteArray) :
    match Settings.parse arguments with
    | .error notice =>
        ending system arguments input =
          if notice = .help ∨ notice = .version then
            ⟨0, none, notice.written.toUTF8, ByteArray.empty⟩
          else ⟨64, none, ByteArray.empty, notice.written.toUTF8⟩
    | .ok ⟨some path, verbose⟩ =>
        EndsScript system.files (system.log verbose) path (ending system arguments input)
    | .ok ⟨none, _⟩ =>
        (ending system arguments input).status = 0 ∨
          (ending system arguments input).status = 1 := by
  cases parsed : Settings.parse arguments with
  | error notice => exact ending_of_notice parsed system input
  | ok settings =>
      obtain ⟨script, verbose⟩ := settings
      cases script with
      | some path =>
          change EndsScript system.files (system.log verbose) path (ending system arguments input)
          rw [ending_of_script parsed]
          cases read : system.files.source? path with
          | error fault => exact endsScript_of_fault _ read
          | ok source? =>
              cases source? with
              | none => exact endsScript_of_missing _ read
              | some source => exact endsScript_of_source _ read
      | none => exact ending_of_prompt parsed system input

/-! ## Scripts in a file tree -/

namespace FileTree

variable {tree : FileTree} {path source : String}

theorem holds_iff :
    tree.fileSystem.Holds path source ↔ tree.Leads path (.file source.toUTF8) := by
  rw [FileSystem.Holds, exists?_eq_true_iff, readBytes_eq_ok_iff, and_iff_right_of_imp]
  exact fun leads => ⟨_, leads⟩

theorem fails_iff :
    tree.fileSystem.Fails path ↔
      ¬ tree.Missing path ∧ ∀ source : String, ¬ tree.Leads path (.file source.toUTF8) := by
  simp only [← FileSystem.source?_eq_error_iff, ← exists?_eq_false_iff, ← holds_iff,
    ← FileSystem.source?_eq_none_iff, ← FileSystem.source?_eq_some_iff]
  cases tree.fileSystem.source? path with
  | error fault => simp
  | ok source? => cases source? <;> simp

end FileTree

/-- From `home` a script beside it is found by the way through the root, and by the path from it. -/
example :
    let tree : FileTree := ⟨["home"], [], [(["lib", "a.lox"], "@".toUTF8)]⟩
    let status (path : String) := (ending ⟨tree.fileSystem, none, fun _ _ => ""⟩ [path] ⟨#[]⟩).status
    ["/lib/a.lox", "../lib/a.lox", "a.lox", "../lib/a.lox/..", "/"].map status =
      [65, 65, 66, 1, 1] := by
  decide +kernel

end Lox

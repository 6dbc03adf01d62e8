import Lox.Files.Tree
import Lox.Program
import Lox.Proofs.EntryBlocks
import Lox.Proofs.LogLines
import Mathlib.Data.Set.List

/-!
# Sessions by their transcripts

What a session at the prompt writes, told by its entries: a prompt, and for each entry its listing
and another prompt. A line that cannot be read ends the session, with the entries before it
answered and nothing after them.
-/

set_option autoImplicit false

namespace Lox

def entriesBeforeFault : List (Except Fault String) → List String
  | .ok entry :: rest => entry :: entriesBeforeFault rest
  | .error _ :: _ | [] => []

def firstFault? : List (Except Fault String) → Option Fault
  | .ok _ :: rest => firstFault? rest
  | .error fault :: _ => some fault
  | [] => none

def answersTo (entries : List String) : String :=
  String.join (entries.map fun entry => tokenLines entry ++ promptText)

def errorsTold (entries : List String) : String :=
  String.join (entries.map errorLines)

@[simp] theorem answersTo_nil : answersTo [] = "" :=
  rfl

@[simp] theorem answersTo_cons (entry : String) (rest : List String) :
    answersTo (entry :: rest) = tokenLines entry ++ promptText ++ answersTo rest := by
  simp [answersTo]

@[simp] theorem errorsTold_nil : errorsTold [] = "" :=
  rfl

@[simp] theorem errorsTold_cons (entry : String) (rest : List String) :
    errorsTold (entry :: rest) = errorLines entry ++ errorsTold rest := by
  simp [errorsTold]

/-- What a session writes to the errors in answer to some entries: of each entry the log lines of its
lexing, its errors, and the log line that it has been listed. -/
inductive Log.Tells (log : Log) : List String → String → Prop where
  | nil : Tells log [] ""
  | cons {entry before behind text : String} {rest : List String} :
      log.Writes (records entry) before → log.Writes [entryRecord (lex entry).hasErrors] behind →
      Tells log rest text →
      Tells log (entry :: rest) (before ++ errorLines entry ++ behind ++ text)

theorem Log.Tells.eq_errorsTold {log : Log} {entries : List String} {text : String}
    (tells : log.Tells entries text) (off : log.Off) : text = errorsTold entries := by
  induction tells with
  | nil => rfl
  | cons before behind _ ih =>
      rw [before.eq_empty off, behind.eq_empty off, ih, errorsTold_cons, String.append_empty,
        String.empty_append]

/-! ## Answering -/

def sessionResult (fault : Option Fault) (console : Console) :
    EStateM.Result Fault Console Unit :=
  match fault with
  | none => .ok () console
  | some fault => .error fault console

theorem exists_run_answer (log : Log) (entry out err : String) :
    ∃ before behind, log.Writes (records entry) before ∧
      log.Writes [entryRecord (lex entry).hasErrors] behind ∧
      (answer log (.ok entry)).run (.holding out err) =
        .ok () (.holding (out ++ (tokenLines entry ++ promptText))
          (err ++ (before ++ errorLines entry ++ behind))) := by
  obtain ⟨before, writesBefore, listed⟩ := log.exists_run_listSource entry out err
  obtain ⟨behind, writesBehind, told⟩ := log.exists_run_tell (entryRecord (lex entry).hasErrors)
    (out ++ tokenLines entry) (err ++ (before ++ errorLines entry))
  refine ⟨before, behind, writesBefore, writesBehind, ?_⟩
  rw [answer, EStateM.run_bind, listed]
  change (do log.tell (entryRecord (lex entry).hasErrors); put .out promptText).run _ = _
  rw [EStateM.run_bind, told]
  change (put .out promptText).run _ = _
  rw [run_put_holding, String.append_assoc, String.append_assoc]

/-- Items are answered one by one, up to the first fault. -/
theorem exists_run_forM_answer (log : Log) (items : List (Except Fault String))
    (out err : String) :
    ∃ text, log.Tells (entriesBeforeFault items) text ∧
      (items.forM (answer log)).run (.holding out err) =
        sessionResult (firstFault? items)
          (.holding (out ++ answersTo (entriesBeforeFault items)) (err ++ text)) := by
  induction items generalizing out err with
  | nil => exact ⟨"", .nil, by simp [firstFault?, entriesBeforeFault, sessionResult]⟩
  | cons item rest ih =>
      cases item with
      | error fault =>
          exact ⟨"", .nil, by simp [firstFault?, entriesBeforeFault, sessionResult, answer]⟩
      | ok entry =>
          obtain ⟨before, behind, writesBefore, writesBehind, answered⟩ :=
            exists_run_answer log entry out err
          obtain ⟨text, tells, run⟩ := ih (out ++ (tokenLines entry ++ promptText))
            (err ++ (before ++ errorLines entry ++ behind))
          refine ⟨_, .cons writesBefore writesBehind tells, ?_⟩
          rw [List.forM, EStateM.run_bind, answered]
          change (rest.forM (answer log)).run _ = _
          rw [run]
          simp only [entriesBeforeFault, answersTo_cons, firstFault?, String.append_assoc]

theorem exists_run_session (log : Log) (stream : ByteArray) :
    ∃ text, log.Tells (entriesBeforeFault (entries stream)) text ∧
      (session log stream).run (.empty none none) =
        sessionResult (firstFault? (entries stream))
          (.holding (promptText ++ answersTo (entriesBeforeFault (entries stream))) text) := by
  obtain ⟨text, tells, run⟩ := exists_run_forM_answer log (entries stream) promptText ""
  refine ⟨text, tells, ?_⟩
  rw [session, EStateM.run_bind, Console.empty_eq_holding, run_put_holding]
  change ((entries stream).forM (answer log)).run (.holding ("" ++ promptText) "") = _
  rw [String.empty_append, run, String.empty_append]

/-! ## Faults in the input -/

theorem fault_eq_of_mem_entries {stream : ByteArray} {fault : Fault}
    (member : .error fault ∈ entries stream) : fault = .invalidUtf8 := by
  obtain ⟨blocks, groups⟩ := exists_groups (textLines stream)
  rw [entries, groups.entriesOfLines_eq] at member
  obtain ⟨block, blockMember, item⟩ := List.mem_map.mp member
  have lineMember : .error fault ∈ textLines stream := by
    rw [← groups.cover]
    refine List.mem_flatMap.mpr ⟨block, blockMember, ?_⟩
    cases block with
    | entry lines => cases item
    | lost dropped met =>
        cases item
        simp [Block.lines]
  obtain ⟨bytes, _, decoded⟩ := List.mem_map.mp lineMember
  unfold decodeText at decoded
  split at decoded
  · cases decoded
  · cases decoded
    rfl

theorem firstFault?_eq {items : List (Except Fault String)} {met : Fault}
    (only : ∀ fault, .error fault ∈ items → fault = met) :
    firstFault? items = if items.all Except.isOk then none else some met := by
  induction items with
  | nil => rfl
  | cons item rest ih =>
      cases item with
      | error fault =>
          rw [firstFault?, only fault List.mem_cons_self]
          rfl
      | ok entry => exact ih fun fault member => only fault (List.mem_cons_of_mem _ member)

/-! ## Lines before a fault -/

theorem entriesBeforeFault_append_error (before : List String) (fault : Fault)
    (after : List (Except Fault String)) :
    entriesBeforeFault (before.map .ok ++ .error fault :: after) = before := by
  induction before with
  | nil => rfl
  | cons entry rest ih => exact congrArg (entry :: ·) ih

/-- A line that cannot be read is lost with the open lines before it, whatever follows. -/
theorem Divided.groups_lost {lines after : List (Except Fault String)} {blocks later : List Block}
    {openLines : List String} (divided : Divided lines blocks openLines) (fault : Fault)
    (groups : Groups after later) :
    Groups (lines ++ .error fault :: after) (blocks ++ .lost openLines fault :: later) := by
  obtain ⟨rfl, minimal, even, staysOpen⟩ := divided
  refine ⟨by simp [Block.lines, groups.cover], ?_, ?_⟩
  · intro block member
    rcases List.mem_append.mp member with earlier | rest
    · exact minimal block earlier
    · cases rest with
      | head => exact staysOpen
      | tail _ behind => exact groups.minimal block behind
  · intro block member
    rw [List.dropLast_append_of_ne_nil (List.cons_ne_nil _ _)] at member
    rcases List.mem_append.mp member with earlier | rest
    · exact even block earlier
    -- With nothing behind it the lost block is the last one and has nothing to show.
    · cases later with
      | nil => cases rest
      | cons next behind =>
          cases rest with
          | head => trivial
          | tail _ member => exact groups.even block member

theorem exists_divided_entries (lines : List String) :
    ∃ (entryLines : List (List String)) (openLines : List String),
      Divided (lines.map .ok) (entryLines.map .entry) openLines := by
  obtain ⟨blocks, openLines, divided⟩ := exists_divided (lines.map .ok)
  have read : ∀ block ∈ blocks, block ∈ Set.range Block.entry := by
    intro block member
    cases block with
    | entry entry => exact ⟨entry, rfl⟩
    | lost dropped fault =>
        have lost : .error fault ∈ lines.map Except.ok := by
          rw [← divided.cover]
          apply List.mem_append_left
          exact List.mem_flatMap.mpr ⟨_, member, by simp [Block.lines]⟩
        simp at lost
  obtain ⟨entryLines, rfl⟩ : blocks ∈ Set.range (List.map Block.entry) := by
    rw [Set.range_list_map]
    exact read
  exact ⟨entryLines, openLines, divided⟩

theorem exists_divided_of_fault {stream : ByteArray} {before : List String} {fault : Fault}
    {after : List (Except Fault String)}
    (lines : textLines stream = before.map .ok ++ .error fault :: after) :
    ∃ (entryLines : List (List String)) (dropped : List String),
      Divided (before.map .ok) (entryLines.map .entry) dropped ∧
        entriesBeforeFault (entries stream) = entryLines.map "\n".intercalate := by
  obtain ⟨entryLines, dropped, divided⟩ := exists_divided_entries before
  obtain ⟨later, groups⟩ := exists_groups after
  refine ⟨entryLines, dropped, divided, ?_⟩
  rw [entries, lines, (divided.groups_lost fault groups).entriesOfLines_eq]
  have items : (entryLines.map Block.entry).map Block.item =
      (entryLines.map "\n".intercalate).map .ok := by
    simp [Block.item]
  rw [List.map_append, items]
  exact entriesBeforeFault_append_error _ fault _

/-! ## Runs without a script -/

theorem run_eq_session {arguments : List String} {settings : Settings}
    (parsed : Settings.parse arguments = .ok settings) (noScript : settings.script = none)
    (system : System) (input : ByteArray) :
    run system arguments input = do
      session (system.log settings.verbose) input
      return .listed false := by
  simp only [run, parsed, noScript]

/-- Unless the environment names a filter, the log is switched on by the command line alone. -/
theorem System.log_off {system : System} (unnamed : system.filter? = none) :
    (system.log false).Off := by
  intro record
  rw [log, unnamed]
  rfl

/-- A run without a script is the listing of its entries up to the first line that cannot be read.
Only that line shows in the status, and neither the open lines before it nor the lines after it are
answered. The errors stand alone if the log is switched off, and otherwise between its lines. -/
theorem run_without_script {arguments : List String} {settings : Settings}
    (parsed : Settings.parse arguments = .ok settings) (noScript : settings.script = none)
    (system : System) (input : ByteArray) :
    (∃ told,
      Ending.ofResult ((run system arguments input).run (.empty none none)) =
          { status := if (entries input).all Except.isOk then 0 else 1
            cause :=
              if (entries input).all Except.isOk then none
              else some "stream did not contain valid UTF-8"
            out := ("> " ++ answersTo (entriesBeforeFault (entries input))).toUTF8
            err := told.toUTF8 } ∧
        (system.log settings.verbose).Tells (entriesBeforeFault (entries input)) told ∧
        ((system.log settings.verbose).Off →
          told = errorsTold (entriesBeforeFault (entries input)))) ∧
      (∀ entry, (listSource entry).run (.empty none none) =
        .ok (lex entry).hasErrors (.holding (tokenLines entry) (errorLines entry))) ∧
      ∀ (before : List String) (fault : Fault) (after : List (Except Fault String)),
        textLines input = before.map .ok ++ .error fault :: after →
          ∃ (entryLines : List (List String)) (dropped : List String),
            Divided (before.map .ok) (entryLines.map .entry) dropped ∧
              entriesBeforeFault (entries input) = entryLines.map "\n".intercalate := by
  refine ⟨?_, run_listSource_unlimited, ?_⟩
  · obtain ⟨told, tells, ran⟩ := exists_run_session (system.log settings.verbose) input
    refine ⟨told, ?_, tells, tells.eq_errorsTold⟩
    rw [run_eq_session parsed noScript, EStateM.run_bind, ran,
      firstFault?_eq fun fault => fault_eq_of_mem_entries]
    cases (entries input).all Except.isOk with
    | true => rfl
    | false => rfl
  · intro before fault after lines
    exact exists_divided_of_fault lines

/-- An entry, an open string, a line that cannot be read and one more line. -/
def cutSession : ByteArray :=
  "a @\n\"b\n".toUTF8 ++ ⟨#[0xff]⟩ ++ "\nc\n".toUTF8

def bareSystem : System :=
  ⟨FileTree.fileSystem ⟨[], [], []⟩, none, fun _ record => record.message ++ "\n"⟩

theorem run_of_cutSession :
    Settings.parse [] = .ok ⟨none, false⟩ ∧
      textLines cutSession = ["a @", "\"b"].map .ok ++ .error .invalidUtf8 :: [.ok "c"] ∧
      Ending.ofResult ((run bareSystem [] cutSession).run (.empty none none)) =
        { status := 1
          cause := some "stream did not contain valid UTF-8"
          out := "> IDENTIFIER a null\nEOF  null\n> ".toUTF8
          err := "[line 1] Error: Unexpected character: @\n".toUTF8 } ∧
      ∃ (entryLines : List (List String)) (dropped : List String),
        Divided (["a @", "\"b"].map .ok) (entryLines.map .entry) dropped ∧
          entriesBeforeFault (entries cutSession) = entryLines.map "\n".intercalate := by
  have parsed : Settings.parse [] = .ok ⟨none, false⟩ := by rfl
  have lines : textLines cutSession =
      ["a @", "\"b"].map .ok ++ .error .invalidUtf8 :: [.ok "c"] := by
    decide +kernel
  have items : entries cutSession = [.ok "a @", .error .invalidUtf8, .ok "c"] := by
    decide +kernel
  have answers : answersTo ["a @"] = "IDENTIFIER a null\nEOF  null\n> " := by decide +kernel
  have errors : errorsTold ["a @"] = "[line 1] Error: Unexpected character: @\n" := by
    decide +kernel
  obtain ⟨⟨told, shown, _, alone⟩, _, dropped⟩ :=
    run_without_script parsed rfl bareSystem cutSession
  refine ⟨parsed, lines, ?_, dropped _ _ _ lines⟩
  rw [shown, alone (System.log_off rfl), items]
  simp only [entriesBeforeFault, answers, errors]
  rfl

/-- With the log switched on its lines stand among the errors. -/
example :
    (Ending.ofResult ((run bareSystem ["-v"] cutSession).run (.empty none none))).err =
      ("scanned source\n" ++ "[line 1] Error: Unexpected character: @\n" ++
        "prompt entry scanned\n").toUTF8 := by
  decide +kernel

end Lox

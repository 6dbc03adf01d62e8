import Lox.Proofs.ListingExactness

/-!
# Lines of the log

What a log adds to the errors: a line for each record that it shows, in the order of the records. The
lines may tell the time, so that the text of a record is not settled by the record alone.
-/

set_option autoImplicit false

namespace Lox.Log

/-- A text that a log may write for some records, each line at a moment of its own. -/
inductive Writes (log : Log) : List Record → String → Prop where
  | nil : Writes log [] ""
  | hidden {record : Record} {rest : List Record} {text : String} :
      log.shows record = false → Writes log rest text → Writes log (record :: rest) text
  | shown {record : Record} {rest : List Record} {text : String} (moment : Console) :
      log.shows record = true → Writes log rest text →
      Writes log (record :: rest) (log.line moment record ++ text)

variable {log : Log} {records more : List Record} {text other : String}

theorem Writes.append (writes : log.Writes records text) (others : log.Writes more other) :
    log.Writes (records ++ more) (text ++ other) := by
  induction writes with
  | nil =>
      rw [List.nil_append, String.empty_append]
      exact others
  | hidden silent _ ih => exact .hidden silent ih
  | shown moment visible _ ih =>
      rw [String.append_assoc]
      exact .shown moment visible ih

theorem Writes.eq_empty (writes : log.Writes records text) (off : log.Off) : text = "" := by
  induction writes with
  | nil => rfl
  | hidden _ _ ih => exact ih
  | shown _ visible _ _ => exact absurd (off _) (ne_false_of_eq_true visible)

theorem exists_run_tell (log : Log) (record : Record) (out err : String) :
    ∃ text, log.Writes [record] text ∧
      (log.tell record).run (.holding out err) = .ok () (.holding out (err ++ text)) := by
  cases shown : log.shows record with
  | false =>
      refine ⟨"", .hidden shown .nil, ?_⟩
      change EStateM.Result.ok () (if log.shows record then _ else _) = _
      rw [if_neg (ne_true_of_eq_false shown), String.append_empty]
  | true =>
      refine ⟨log.line (.holding out err) record ++ "", .shown _ shown .nil, ?_⟩
      change EStateM.Result.ok () (if log.shows record then _ else _) = _
      rw [if_pos shown, Console.accept_holding, String.append_empty]

theorem exists_run_forM_tell (log : Log) (records : List Record) (out err : String) :
    ∃ text, log.Writes records text ∧
      (records.forM log.tell).run (.holding out err) = .ok () (.holding out (err ++ text)) := by
  induction records generalizing err with
  | nil =>
      refine ⟨"", .nil, ?_⟩
      rw [String.append_empty]
      rfl
  | cons record rest ih =>
      obtain ⟨line, lineWritten, told⟩ := exists_run_tell log record out err
      obtain ⟨lines, linesWritten, run⟩ := ih (err ++ line)
      refine ⟨line ++ lines, lineWritten.append linesWritten, ?_⟩
      rw [← String.append_assoc, ← run, List.forM, EStateM.run_bind, told]

/-- The log lines of a lexing come before the errors that it has met. -/
theorem exists_run_listSource (log : Log) (source out err : String) :
    ∃ text, log.Writes (Lox.records source) text ∧
      (log.listSource source).run (.holding out err) =
        .ok (lex source).hasErrors
          (.holding (out ++ tokenLines source) (err ++ (text ++ errorLines source))) := by
  obtain ⟨text, writes, told⟩ := exists_run_forM_tell log (Lox.records source) out err
  refine ⟨text, writes, ?_⟩
  rw [listSource, EStateM.run_bind, told]
  change (Lox.listSource source).run _ = _
  rw [run_listSource_holding, String.append_assoc]

end Lox.Log

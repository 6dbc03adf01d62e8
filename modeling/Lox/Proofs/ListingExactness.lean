import Lox.Output.Listing
import Lox.Proofs.ConsoleWrites
import Lox.Proofs.LexingSteps

/-!
# Exact listings

A listing is two texts, one for each channel. They are written whole or up to the byte at which a
channel reaches its limit; a fault on the errors keeps the output empty.
-/

set_option autoImplicit false

namespace Lox

def tokenLines (source : String) : String :=
  String.join ((lex source).tokens.map Token.listingLine)

def errorLines (source : String) : String :=
  String.join ((lex source).errors.map LexicalError.report)

theorem listSource_eq (source : String) :
    listSource source = do
      put .err (errorLines source)
      put .out (tokenLines source)
      return (lex source).hasErrors := by
  rw [listSource, forM_put, forM_put]
  rfl

/-- Without limits a listing adds its two texts to what the channels have accepted before. -/
@[simp] theorem run_listSource_holding (source out err : String) :
    (listSource source).run (.holding out err) =
      .ok (lex source).hasErrors
        (.holding (out ++ tokenLines source) (err ++ errorLines source)) := by
  simp only [listSource_eq, EStateM.run_bind, run_put_holding, EStateM.run_pure]

theorem run_listSource_unlimited (source : String) :
    (listSource source).run (.empty none none) =
      .ok (lex source).hasErrors (.holding (tokenLines source) (errorLines source)) := by
  simp only [Console.empty_eq_holding, run_listSource_holding, String.empty_append]

/-! ## Errors told -/

theorem Lexing.hasErrors_iff {lexing : Lexing} : lexing.hasErrors = true ↔ lexing.errors ≠ [] := by
  simp [hasErrors]

theorem LexicalError.report_ne_empty (error : LexicalError) : error.report ≠ "" := by
  intro empty
  have chars := congrArg String.toList empty
  simp [report, reportLine] at chars

theorem errorLines_eq_empty_iff {source : String} :
    errorLines source = "" ↔ (lex source).errors = [] := by
  cases found : (lex source).errors with
  | nil => simp [errorLines, found]
  | cons error rest => simp [errorLines, found, error.report_ne_empty]

/-! ## Fresh channels -/

private theorem run_put_of_empty {console : Console} {channel : Channel} {limit : Option Nat}
    (fresh : console.sink channel = Sink.empty limit) (text : String) :
    (put channel text).run console =
      if exceeds limit text.toUTF8 then
        .error .limitReached (console.withSink channel ⟨limit, cutAt limit text.toUTF8⟩)
      else .ok () (console.withSink channel ⟨limit, text.toUTF8⟩) := by
  rw [run_put, Console.accept, fresh, Sink.fits_of_empty, Sink.accept_of_empty]
  cases beyond : exceeds limit text.toUTF8 with
  | true => rfl
  | false =>
      rw [cutAt_of_within beyond]
      rfl

private theorem tokenLines_eq_append (source : String) :
    ∃ before, tokenLines source = before ++ "EOF  null\n" := by
  have last : (Token.endOfSource (lineCount source.toList)).listingLine = "EOF  null\n" := by
    rfl
  refine ⟨String.join ((lex source).tokens.dropLast.map Token.listingLine), ?_⟩
  rw [tokenLines, tokens_eq_dropLast, List.dropLast_concat, List.map_append, String.join_append,
    List.map_singleton, last]
  simp

/-- A channel that is too narrow for the errors ends a listing before any token is written, and one
that is too narrow for the tokens ends it with all errors told. Whatever the channel, it has the
bytes before its limit and no others. Without a fault both texts are written whole, and errors are
claimed exactly if some were told. -/
theorem listSource_exact (source : String) (outLimit errLimit : Option Nat) :
    (listSource source).run (Console.empty outLimit errLimit) =
        (if exceeds errLimit (errorLines source).toUTF8 then
          .error .limitReached
            ⟨Sink.empty outLimit, ⟨errLimit, cutAt errLimit (errorLines source).toUTF8⟩⟩
        else if exceeds outLimit (tokenLines source).toUTF8 then
          .error .limitReached
            ⟨⟨outLimit, cutAt outLimit (tokenLines source).toUTF8⟩,
              ⟨errLimit, (errorLines source).toUTF8⟩⟩
        else
          .ok (lex source).hasErrors
            ⟨⟨outLimit, (tokenLines source).toUTF8⟩, ⟨errLimit, (errorLines source).toUTF8⟩⟩) ∧
      (∃ before, tokenLines source = before ++ "EOF  null\n") ∧
      ((lex source).hasErrors = true ↔ (errorLines source).toUTF8 ≠ ByteArray.empty) ∧
      ((lex source).hasErrors = true ↔ (lex source).errors ≠ []) := by
  refine ⟨?_, tokenLines_eq_append source, ?_, Lexing.hasErrors_iff⟩
  · have errFresh : (Console.empty outLimit errLimit).sink .err = Sink.empty errLimit := rfl
    rw [listSource_eq, EStateM.run_bind, run_put_of_empty errFresh]
    cases exceeds errLimit (errorLines source).toUTF8 with
    | true => rfl
    | false =>
        -- The errors have been told whole, and the output is as fresh as before.
        have outFresh : ((Console.empty outLimit errLimit).withSink .err
            ⟨errLimit, (errorLines source).toUTF8⟩).sink .out = Sink.empty outLimit := rfl
        simp only [Bool.false_eq_true, ↓reduceIte, EStateM.run_bind, run_put_of_empty outFresh]
        cases exceeds outLimit (tokenLines source).toUTF8 with
        | true => rfl
        | false => rfl
  · rw [Lexing.hasErrors_iff, Ne, Ne, String.toUTF8, String.toByteArray_eq_empty_iff,
      errorLines_eq_empty_iff]

end Lox

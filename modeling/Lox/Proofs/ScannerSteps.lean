import Lox.Lexing.Scanner
import Mathlib.Logic.Relation

/-!
# The steps of a scanner

All that changes a scanner are five kinds of step. Each helper of the main loop, and each turn of it,
is made of steps, and no step gives a character back.
-/

set_option autoImplicit false

namespace Lox.Scanner

/-- One change of the state, whether the main loop or one of its helpers makes it. -/
inductive Step : Scanner → Scanner → Prop where
  | startLexeme (scanner : Scanner) : Step scanner scanner.startLexeme
  | advance (scanner : Scanner) : Step scanner scanner.advance.2
  | countFeed (c : Char) (scanner : Scanner) : Step scanner (scanner.countFeed c)
  | addToken {scanner next : Scanner} {kind : TokenKind} {literal : Option Literal} :
      scanner.addTokenWithLiteral kind literal = some next → Step scanner next
  | addError (error : LexicalError) (scanner : Scanner) : Step scanner (scanner.addError error)

abbrev Steps : Scanner → Scanner → Prop :=
  Relation.ReflTransGen Step

/-! ## The helpers take steps alone -/

section Helpers

variable {scanner next : Scanner} {error : Option LexicalError}

theorem steps_matchOne (scanner : Scanner) (expected : Char) :
    Steps scanner (scanner.matchOne expected).2 := by
  rw [matchOne]
  split
  · exact .single (.advance _)
  · exact .refl

theorem steps_advanceWhile (wanted : Char → Bool) :
    Steps scanner (scanner.advanceWhile wanted) := by
  fun_induction advanceWhile wanted scanner with
  | case1 scanner c next isWanted ih => exact .head (.advance _) ih
  | case2 | case3 => exact .refl

theorem steps_advanceToQuote : Steps scanner scanner.advanceToQuote := by
  fun_induction advanceToQuote scanner with
  | case2 scanner c next notQuote ih =>
      exact .head (.countFeed c _) (.head (.advance _) ih)
  | case1 | case3 => exact .refl

theorem steps_addOperator {withEqual alone : TokenKind}
    (added : scanner.addOperator withEqual alone = some next) : Steps scanner next := by
  have looked := steps_matchOne scanner '='
  rw [addOperator] at added
  split at added
  · next shape =>
    rw [shape] at looked
    exact looked.tail (.addToken added)
  · next shape =>
    rw [shape] at looked
    exact looked.tail (.addToken added)

theorem steps_consumeString (consumed : scanner.consumeString = some (error, next)) :
    Steps scanner next := by
  rw [consumeString] at consumed
  split at consumed
  · obtain ⟨text, _, result⟩ := Option.bind_eq_some_iff.mp consumed
    cases result
    exact steps_advanceToQuote
  · obtain ⟨lexeme, _, sliced⟩ := Option.bind_eq_some_iff.mp consumed
    obtain ⟨value, _, adds⟩ := Option.bind_eq_some_iff.mp sliced
    obtain ⟨_, added, result⟩ := Option.bind_eq_some_iff.mp adds
    cases result
    exact (steps_advanceToQuote.tail (.advance _)).tail (.addToken added)

theorem steps_consumeFraction (consumed : scanner.consumeFraction = some next) :
    Steps scanner next := by
  rw [consumeFraction] at consumed
  split at consumed
  · obtain ⟨second, _, result⟩ := Option.bind_eq_some_iff.mp consumed
    cases result
    split
    · exact .head (.advance _) (steps_advanceWhile _)
    · exact .refl
  · cases consumed
    exact .refl

theorem steps_consumeNumber (consumed : scanner.consumeNumber = some next) :
    Steps scanner next := by
  obtain ⟨_, digits, sliced⟩ := Option.bind_eq_some_iff.mp consumed
  obtain ⟨lexeme, _, added⟩ := Option.bind_eq_some_iff.mp sliced
  exact ((steps_advanceWhile _).trans (steps_consumeFraction digits)).tail (.addToken added)

theorem steps_consumeWord (consumed : scanner.consumeWord = some next) : Steps scanner next := by
  obtain ⟨lexeme, _, added⟩ := Option.bind_eq_some_iff.mp consumed
  exact (steps_advanceWhile _).tail (.addToken added)

private theorem eq_some_of_map {found : Option Scanner}
    (faultless : found.map (none, ·) = some (error, next)) : found = some next := by
  obtain ⟨_, same, result⟩ := Option.map_eq_some_iff.mp faultless
  cases result
  exact same

theorem steps_scanToken (scanned : scanner.scanToken = some (error, next)) :
    Steps scanner.advance.2 next := by
  rw [scanToken] at scanned
  split at scanned
  · next shape =>
    rw [shape]
    cases scanned
    exact .refl
  · next c after shape =>
    rw [shape]
    cases role : Lead.ofChar c with simp only [role] at scanned
    | mark kind => exact .single (.addToken (eq_some_of_map scanned))
    | operator alone withEqual => exact steps_addOperator (eq_some_of_map scanned)
    | slash =>
        have looked := steps_matchOne after '/'
        split at scanned
        · next twice =>
          rw [twice] at looked
          cases scanned
          exact looked.trans (steps_advanceWhile _)
        · next once =>
          rw [once] at looked
          exact looked.tail (.addToken (eq_some_of_map scanned))
    | blank =>
        cases scanned
        exact .single (.countFeed c _)
    | quote => exact steps_consumeString scanned
    | digit => exact steps_consumeNumber (eq_some_of_map scanned)
    | letter => exact steps_consumeWord (eq_some_of_map scanned)
    | stray =>
        cases scanned
        exact .refl

theorem steps_behind_first (turned : scanner.turn = some next) :
    Steps scanner.startLexeme.advance.2 next := by
  obtain ⟨⟨error, after⟩, scanned, result⟩ := Option.bind_eq_some_iff.mp turned
  have read := steps_scanToken scanned
  cases error with
  | none =>
      cases result
      exact read
  | some error =>
      cases result
      exact read.tail (.addError _ _)

theorem steps_turn (turned : scanner.turn = some next) : Steps scanner next :=
  .head (.startLexeme _) (.head (.advance _) (steps_behind_first turned))

end Helpers

/-! ## Characters are not given back -/

section Taken

variable {scanner next : Scanner}

theorem Step.upcoming_suffix (change : Step scanner next) :
    next.upcoming <:+ scanner.upcoming := by
  cases change with
  | startLexeme | addError => exact List.suffix_rfl
  | advance =>
      rw [Scanner.advance]
      split
      · exact List.suffix_rfl
      · next c rest shape =>
        rw [shape]
        exact List.suffix_cons c rest
  | countFeed c => simp only [upcoming_countFeed, List.suffix_rfl]
  | addToken added =>
      obtain ⟨_, _, result⟩ := Option.bind_eq_some_iff.mp added
      cases result
      exact List.suffix_rfl

theorem Steps.upcoming_suffix (changes : Steps scanner next) :
    next.upcoming <:+ scanner.upcoming := by
  induction changes with
  | refl => exact List.suffix_rfl
  | tail _ change ih => exact change.upcoming_suffix.trans ih

/-- A turn takes a character if there is one to take. -/
theorem length_turn_lt (more : scanner.upcoming ≠ []) (turned : scanner.turn = some next) :
    next.upcoming.length < scanner.upcoming.length := by
  obtain ⟨c, rest, shape⟩ := List.exists_cons_of_ne_nil more
  have first : scanner.startLexeme.peekOne = some c := List.head?_eq_some_iff.mpr ⟨rest, shape⟩
  have behind := (steps_behind_first turned).upcoming_suffix.length_le
  exact Nat.lt_of_le_of_lt behind (length_advance_lt scanner.startLexeme first)

theorem turn_of_nothing_to_come (nothing : scanner.upcoming = []) :
    scanner.turn = some scanner.startLexeme := by
  have taken : scanner.startLexeme.advance = (none, scanner.startLexeme) := by
    rw [advance, show scanner.startLexeme.upcoming = [] from nothing]
  rw [turn, scanToken, taken]
  rfl

end Taken

end Lox.Scanner

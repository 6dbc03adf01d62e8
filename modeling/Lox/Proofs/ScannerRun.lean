import Lox.Lexing.ScannerLoop
import Lox.Proofs.ScannerTurn

/-!
# A whole run of a scanner

Turn after turn a scanner takes at least one character and shows one token or error at most. The
main loop therefore comes to an end, and what it has shown by then is the lexing of its source.
-/

set_option autoImplicit false

namespace Lox.Scanner

/-! ## The main loop -/

/-- Turns of the main loop, each of them made before the end is reached. -/
inductive Turns : Scanner → Nat → Scanner → Prop where
  | none (scanner : Scanner) : Turns scanner 0 scanner
  | turn {scanner next last : Scanner} {turns : Nat} :
      scanner.isAtEnd = false → scanner.turn = some next → Turns next turns last →
      Turns scanner (turns + 1) last

section Loop

variable {source : String} {scanner next last : Scanner} {turns : Nat}

theorem Turns.isAtEnd_eq (made : Turns scanner turns last) (nothing : scanner.upcoming = []) :
    last.isAtEnd = scanner.isAtEnd := by
  induction made with
  | none => rfl
  | turn _ turned _ ih =>
      cases turned.symm.trans (turn_of_nothing_to_come nothing)
      exact ih nothing

theorem Turns.mainLoop_eq (made : Turns scanner turns last) (atEnd : last.isAtEnd = true) :
    scanner.mainLoop = some last := by
  induction made with
  | none => rw [mainLoop, if_pos atEnd]
  | @turn scanner next last turns notAtEnd turned rest ih =>
      have more : scanner.upcoming ≠ [] := by
        intro nothing
        have stays := (Turns.turn notAtEnd turned rest).isAtEnd_eq nothing
        exact Bool.false_ne_true (notAtEnd.symm.trans (stays.symm.trans atEnd))
      rw [mainLoop, if_neg (by simp [notAtEnd]), dif_neg more]
      split
      · next same =>
        cases turned.symm.trans same
        exact ih atEnd
      · next failed => exact absurd (turned.symm.trans failed) (Option.some_ne_none _)

/-- The main loop answers where its turns end, and has no other answer. -/
theorem mainLoop_eq_some_iff :
    scanner.mainLoop = some last ↔ ∃ turns, Turns scanner turns last ∧ last.isAtEnd = true := by
  constructor
  · intro answered
    fun_induction mainLoop scanner with
    | case1 scanner atEnd =>
        cases answered
        exact ⟨0, .none _, atEnd⟩
    | case3 scanner notAtEnd _ next turned ih =>
        obtain ⟨turns, made, atEnd⟩ := ih answered
        exact ⟨turns + 1, .turn (Bool.eq_false_iff.mpr notAtEnd) turned made, atEnd⟩
    | case2 | case4 => cases answered
  · rintro ⟨turns, made, atEnd⟩
    exact made.mainLoop_eq atEnd

theorem Turns.steps (made : Turns scanner turns last) : Steps scanner last := by
  induction made with
  | none => exact .refl
  | turn _ turned _ ih => exact (steps_turn turned).trans ih

end Loop

/-! ## Along the pieces -/

section Pieces

variable {source : String} {scanner next last : Scanner} {behind lexeme following : List Char}
  {turns : Nat} {piece : Piece}

theorem Cut.past (cut : scanner.Cut source behind lexeme) (start : Nat)
    (shape : scanner.upcoming = piece.text ++ following) :
    (scanner.past start piece following).Cut source (behind ++ lexeme) piece.text :=
  (cut.startLexeme.moved shape).congr rfl rfl rfl rfl

theorem Cut.exists_turn (cut : scanner.Cut source behind lexeme) (start : Nat)
    (notAtEnd : scanner.isAtEnd = false) :
    ∃ piece following, piece.text ≠ [] ∧ scanner.upcoming = piece.text ++ following ∧
      scanner.turn = some (scanner.past start piece following) := by
  cases shape : scanner.upcoming with
  | nil => exact absurd (cut.isAtEnd_iff.mpr shape) (by simp [notAtEnd])
  | cons c rest =>
      exact ⟨_, _, Piece.first_text_ne_nil c rest, (Piece.first_append c rest).symm,
        turn_eq start cut shape⟩

theorem length_shown_le (placed : Placed) :
    (placed.token?.map Token.decoded).toList.length + placed.error?.toList.length ≤ 1 := by
  have either : placed.token? = none ∨ placed.error? = none := by
    obtain ⟨⟨kind, text⟩, start, line⟩ := placed
    cases kind with
    | token => exact .inr rfl
    | space | comment | stray | openString => exact .inl rfl
  rcases either with noToken | noError
  · rw [noToken, Option.map_none, Option.toList_none, List.length_nil, Nat.zero_add]
    exact Option.length_toList_le
  · rw [noError, Option.toList_none, List.length_nil, Nat.add_zero]
    exact Option.length_toList_le

theorem length_past_le (start : Nat) (piece : Piece) (following : List Char)
    (scanner : Scanner) :
    (scanner.past start piece following).tokens.length +
        (scanner.past start piece following).errors.length ≤
      scanner.tokens.length + scanner.errors.length + 1 := by
  have shown := length_shown_le ⟨piece, start, scanner.line + piece.text.count '\n'⟩
  simp only [Scanner.past, List.length_append]
  omega

/-- Every turn costs a character and brings in one token or error at most. -/
theorem Turns.spent (made : Turns scanner turns last) (cut : scanner.Cut source behind lexeme) :
    (∃ behind lexeme, last.Cut source behind lexeme) ∧
      turns + last.upcoming.length ≤ scanner.upcoming.length ∧
      last.tokens.length + last.errors.length ≤
        scanner.tokens.length + scanner.errors.length + turns := by
  induction made generalizing behind lexeme with
  | none => exact ⟨⟨_, _, cut⟩, by omega, by omega⟩
  | @turn scanner next last turns notAtEnd turned _ ih =>
      obtain ⟨piece, following, nonempty, shape, takes⟩ := cut.exists_turn 0 notAtEnd
      cases turned.symm.trans takes
      obtain ⟨reached, characters, shown⟩ := ih (cut.past 0 shape)
      have taken := List.length_pos_iff.mpr nonempty
      have lengths := congrArg List.length shape
      have added := length_past_le 0 piece following scanner
      rw [List.length_append] at lengths
      have left : (scanner.past 0 piece following).upcoming.length = following.length := rfl
      exact ⟨reached, by omega, by omega⟩

structure Reads (scanner : Scanner) (placed : List Placed) (last : Scanner) : Prop where
  tokens_eq : last.tokens =
    scanner.tokens ++ (placed.filterMap Placed.token?).map Token.decoded
  errors_eq : last.errors = scanner.errors ++ placed.filterMap Placed.error?
  events_eq : last.events = scanner.events ++ placed.filterMap Placed.event?

theorem reads_nil (scanner : Scanner) : Reads scanner [] scanner :=
  ⟨by simp, by simp, by simp⟩

private theorem filterMap_cons_eq_append {Shown : Type} (part? : Placed → Option Shown)
    (first : Placed) (rest : List Placed) :
    (first :: rest).filterMap part? = (part? first).toList ++ rest.filterMap part? := by
  rw [List.filterMap_cons]
  cases part? first <;> rfl

theorem Reads.cons {start : Nat} {placed : List Placed}
    (reads : Reads (scanner.past start piece following) placed last) :
    Reads scanner (⟨piece, start, scanner.line + piece.text.count '\n'⟩ :: placed) last := by
  obtain ⟨tokens_eq, errors_eq, events_eq⟩ := reads
  constructor
  · rw [tokens_eq, filterMap_cons_eq_append, List.map_append, ← List.append_assoc,
      ← Option.toList_map]
    rfl
  · rw [errors_eq, filterMap_cons_eq_append, ← List.append_assoc]
    rfl
  · rw [events_eq, filterMap_cons_eq_append, ← List.append_assoc]
    rfl

/-- The turns of a scanner go by the pieces of what is to come, and end behind the last of them. -/
theorem exists_turns (text : List Char) (start : Nat) (cut : scanner.Cut source behind lexeme)
    (shape : scanner.upcoming = text) :
    ∃ turns last, Turns scanner turns last ∧ last.isAtEnd = true ∧
      last.line = scanner.line + text.count '\n' ∧
      Reads scanner (placeFrom start scanner.line (pieces text)) last := by
  induction text using pieces_induction generalizing scanner behind lexeme start with
  | nil =>
      refine ⟨0, scanner, .none _, cut.isAtEnd_iff.mpr shape, rfl, ?_⟩
      rw [pieces_nil, placeFrom_nil]
      exact reads_nil scanner
  | cons c rest piece following taken ih =>
      have split : piece.text ++ following = c :: rest := Piece.append_of_first taken
      have parts : scanner.upcoming = piece.text ++ following := by rw [shape, split]
      have notAtEnd : scanner.isAtEnd = false := by
        rw [Bool.eq_false_iff]
        intro atEnd
        exact List.cons_ne_nil _ _ (shape.symm.trans (cut.isAtEnd_iff.mp atEnd))
      obtain ⟨turns, last, made, atEnd, line_eq, reads⟩ :=
        ih (start + piece.text.length) (cut.past start parts) rfl
      have turned := turn_eq start cut shape
      rw [taken] at turned
      refine ⟨turns + 1, last, .turn notAtEnd turned made, atEnd, ?_, ?_⟩
      · rw [line_eq, ← split, List.count_append, ← Nat.add_assoc]
        rfl
      · rw [pieces_cons, taken, placeFrom_cons]
        exact reads.cons

end Pieces

/-! ## The whole source -/

/-- A scan has an answer for every source: the tokens and errors of its lexing, and the events of
its lexing in the log. -/
theorem exists_scan (source : String) :
    ∃ turns last, Turns (new source) turns last ∧ last.isAtEnd = true ∧
      scan source = some last.addEndOfSource.addSummary ∧
      last.addEndOfSource.tokens = (lex source).tokens.map Token.decoded ∧
      last.errors = (lex source).errors ∧
      last.addEndOfSource.addSummary.events = Lox.events source := by
  obtain ⟨turns, last, made, atEnd, line_eq, reads⟩ :=
    exists_turns source.toList 0 (cut_new source) rfl
  have tokens_eq : last.addEndOfSource.tokens = (lex source).tokens.map Token.decoded := by
    rw [addEndOfSource, reads.tokens_eq, line_eq, lex, List.map_append]
    rfl
  have errors_eq : last.errors = (lex source).errors := reads.errors_eq
  refine ⟨turns, last, made, atEnd, ?_, tokens_eq, errors_eq, ?_⟩
  · rw [scan, scanTokens, mainLoop_eq_some_iff.mpr ⟨turns, made, atEnd⟩, Option.map_some,
      Option.map_some]
  · rw [addSummary, tokens_eq, List.length_map]
    change last.events ++ [.summary _ last.errors.length] = _
    rw [reads.events_eq, errors_eq]
    rfl

/-- In every state that a scanner comes to on a source its cursor is sound, so that no slice of the
source fails. A turn of its main loop has an answer whenever it is made, which it would not have if
a slice of a lexeme failed either, and takes at least one character. So there are at most as many
turns as characters, and at most as many tokens and errors, the end of the source apart. -/
theorem cursor_sound_and_run_bounded (source : String) :
    (∀ scanner, Reachable source scanner → scanner.Sound source) ∧
    (∀ turns scanner, Turns (new source) turns scanner →
      Reachable source scanner ∧ turns + scanner.upcoming.length ≤ source.length ∧
      scanner.tokens.length + scanner.errors.length ≤ turns ∧
      (scanner.isAtEnd = false → ∃ next taken, scanner.turn = some next ∧ Steps scanner next ∧
        taken ≠ [] ∧ scanner.upcoming = taken ++ next.upcoming)) ∧
    ∃ turns last, Turns (new source) turns last ∧ last.isAtEnd = true ∧
      turns ≤ source.length ∧ last.tokens.length + last.errors.length ≤ source.length ∧
      scan source = some last.addEndOfSource.addSummary ∧
      last.addEndOfSource.tokens = (lex source).tokens.map Token.decoded ∧
      last.errors = (lex source).errors := by
  have start : (new source).upcoming.length = source.length := String.length_toList
  refine ⟨fun scanner reachable => ?_, fun turns scanner made => ?_, ?_⟩
  · obtain ⟨_, _, cut⟩ := reachable.exists_cut
    exact cut.sound
  · obtain ⟨⟨_, _, cut⟩, characters, shown⟩ := made.spent (cut_new source)
    refine ⟨made.steps, start ▸ characters, ?_, fun notAtEnd => ?_⟩
    · simpa [new] using shown
    · obtain ⟨piece, following, nonempty, shape, turned⟩ := cut.exists_turn 0 notAtEnd
      exact ⟨_, piece.text, turned, steps_turn turned, nonempty, shape⟩
  · obtain ⟨turns, last, made, atEnd, answer, tokens_eq, errors_eq, _⟩ := exists_scan source
    obtain ⟨_, characters, shown⟩ := made.spent (cut_new source)
    have total : last.tokens.length + last.errors.length ≤ turns := by simpa [new] using shown
    exact ⟨turns, last, made, atEnd, by omega, by omega, answer, tokens_eq, errors_eq⟩

theorem cursor_between_wide_characters :
    ∃ scanner, Turns (new "ü\"é\"") 1 scanner ∧ Reachable "ü\"é\"" scanner ∧
      scanner.isAtEnd = false ∧ scanner.current = 2 ∧ scanner.Sound "ü\"é\"" ∧
      ∃ next taken, scanner.turn = some next ∧ Steps scanner next ∧ taken ≠ [] ∧
        scanner.upcoming = taken ++ next.upcoming := by
  have turned : (new "ü\"é\"").turn = some _ := rfl
  have made : Turns (new "ü\"é\"") 1 _ := .turn (by decide) turned (.none _)
  have law := cursor_sound_and_run_bounded "ü\"é\""
  obtain ⟨reachable, _, _, goesOn⟩ := law.2.1 1 _ made
  exact ⟨_, made, reachable, by decide, rfl, law.1 _ reachable, goesOn (by decide)⟩

end Lox.Scanner

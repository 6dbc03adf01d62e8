import Lox.Proofs.LexingRelation
import Lox.Proofs.ScannerCursor

/-!
# One turn of a scanner

A turn of the main loop takes the first piece of what is to come, whatever it is, and shows what the
piece shows. Each helper is told by what it moves over; none of the slices on the way fails.
-/

set_option autoImplicit false

namespace Lox.Scanner

/-! ## Moving on -/

/-- A scanner that has taken a text, lines and all, with `rest` still to come. -/
def moved (text rest : List Char) (scanner : Scanner) : Scanner :=
  { scanner with
    upcoming := rest
    current := scanner.current + byteLength text
    line := scanner.line + text.count '\n' }

section Moved

variable {source : String} {scanner : Scanner} {behind lexeme text rest : List Char} {c : Char}

theorem moved_nil (shape : scanner.upcoming = rest) : scanner.moved [] rest = scanner := by
  rw [moved, byteLength_nil, ← shape]
  rfl

theorem moved_moved (first second between : List Char) :
    (scanner.moved first between).moved second rest = scanner.moved (first ++ second) rest := by
  simp only [moved, byteLength_append, List.count_append, Nat.add_assoc]

theorem Cut.moved (cut : scanner.Cut source behind lexeme)
    (shape : scanner.upcoming = text ++ rest) :
    (scanner.moved text rest).Cut source behind (lexeme ++ text) where
  source_eq := cut.source_eq
  parts := by
    rw [cut.parts, shape]
    simp [Scanner.moved]
  lexemeStart_eq := cut.lexemeStart_eq
  current_eq := by simp [Scanner.moved, cut.current_eq, Nat.add_assoc]

theorem advance_eq (shape : scanner.upcoming = c :: rest) (sameLine : c ≠ '\n') :
    scanner.advance = (some c, scanner.moved [c] rest) := by
  rw [advance, shape]
  simp [moved, sameLine]

theorem advance_moved (sameLine : c ≠ '\n') :
    (scanner.moved text (c :: rest)).advance = (some c, scanner.moved (text ++ [c]) rest) := by
  rw [← moved_moved _ _ (c :: rest)]
  exact advance_eq rfl sameLine

/-- A character is taken with its line, whether the line is counted before or after. -/
theorem advance_countFeed (shape : scanner.upcoming = c :: rest) :
    (scanner.countFeed c).advance.2 = scanner.moved [c] rest := by
  by_cases feed : c = '\n' <;> simp [advance, countFeed, moved, shape, feed]

theorem countFeed_advance (shape : scanner.upcoming = c :: rest) :
    scanner.advance.2.countFeed c = scanner.moved [c] rest := by
  by_cases feed : c = '\n' <;> simp [advance, countFeed, moved, shape, feed]

end Moved

theorem advanceWhile_eq {wanted : Char → Bool} (sameLine : wanted '\n' = false)
    (scanner : Scanner) : scanner.advanceWhile wanted =
      scanner.moved (scanner.upcoming.takeWhile wanted) (scanner.upcoming.dropWhile wanted) := by
  fun_induction advanceWhile wanted scanner with
  | case1 scanner c next isWanted ih =>
      obtain ⟨rest, shape⟩ := List.head?_eq_some_iff.mp next
      have notFeed : c ≠ '\n' := by
        rintro rfl
        exact absurd isWanted (by simp [sameLine])
      rw [ih, advance_eq shape notFeed, shape, List.takeWhile_cons_of_pos isWanted,
        List.dropWhile_cons_of_pos isWanted]
      exact moved_moved _ _ _
  | case2 scanner c next notWanted =>
      obtain ⟨rest, shape⟩ := List.head?_eq_some_iff.mp next
      rw [shape, List.takeWhile_cons_of_neg notWanted, List.dropWhile_cons_of_neg notWanted,
        moved_nil shape]
  | case3 scanner next =>
      have shape := List.head?_eq_none_iff.mp next
      rw [shape, List.takeWhile_nil, List.dropWhile_nil, moved_nil shape]

theorem advanceToQuote_eq (scanner : Scanner) : scanner.advanceToQuote =
    scanner.moved (scanner.upcoming.takeWhile (· != '"'))
      (scanner.upcoming.dropWhile (· != '"')) := by
  fun_induction advanceToQuote scanner with
  | case1 scanner next =>
      obtain ⟨rest, shape⟩ := List.head?_eq_some_iff.mp next
      rw [shape, List.takeWhile_cons_of_neg (by simp), List.dropWhile_cons_of_neg (by simp),
        moved_nil shape]
  | case2 scanner c next notQuote ih =>
      obtain ⟨rest, shape⟩ := List.head?_eq_some_iff.mp next
      have wanted : (c != '"') = true := bne_iff_ne.mpr notQuote
      rw [ih, advance_countFeed shape, shape, List.takeWhile_cons_of_pos (p := (· != '"')) wanted,
        List.dropWhile_cons_of_pos (p := (· != '"')) wanted]
      exact moved_moved _ _ _
  | case3 scanner next =>
      have shape := List.head?_eq_none_iff.mp next
      rw [shape, List.takeWhile_nil, List.dropWhile_nil, moved_nil shape]

/-! ## One piece -/

/-- A scanner behind its next piece, with what the piece shows. -/
def past (start : Nat) (piece : Piece) (following : List Char) (scanner : Scanner) : Scanner :=
  let line := scanner.line + piece.text.count '\n'
  let placed : Placed := ⟨piece, start, line⟩
  { scanner with
    upcoming := following
    tokens := scanner.tokens ++ (placed.token?.map Token.decoded).toList
    errors := scanner.errors ++ placed.error?.toList
    events := scanner.events ++ placed.event?.toList
    lexemeStart := scanner.current
    current := scanner.current + byteLength piece.text
    line := line }

section Piece

variable {source : String} {scanner : Scanner} {behind lexeme text following rest : List Char}
  {c : Char} (start : Nat)

theorem moved_eq_past {kind : PieceKind} (silent : kind = .space ∨ kind = .comment) :
    scanner.startLexeme.moved text following = scanner.past start ⟨kind, text⟩ following := by
  rcases silent with rfl | rfl <;>
    simp [moved, startLexeme, past, Placed.event?, Placed.token?, Placed.error?]

theorem addError_eq_past (kind : PieceKind) {error : LexicalError}
    (noToken : ∀ token, kind ≠ .token token)
    (shown : Placed.error? ⟨⟨kind, text⟩, start, scanner.line + text.count '\n'⟩ = some error) :
    (scanner.startLexeme.moved text following).addError error =
      scanner.past start ⟨kind, text⟩ following := by
  have silent : Placed.token? ⟨⟨kind, text⟩, start, scanner.line + text.count '\n'⟩ = none := by
    cases kind with
    | token kind => exact absurd rfl (noToken kind)
    | space | comment | stray | openString => rfl
  simp [moved, startLexeme, past, addError, Placed.event?, silent, shown]

theorem addTokenWithLiteral_eq_past (cut : scanner.Cut source behind lexeme)
    (shape : scanner.upcoming = text ++ following) {kind : TokenKind} {literal : Option Literal}
    (decoded : ∀ line, Token.literal ⟨kind, String.ofList text, line⟩ = literal) :
    (scanner.startLexeme.moved text following).addTokenWithLiteral kind literal =
      some (scanner.past start ⟨.token kind, text⟩ following) := by
  rw [(cut.startLexeme.moved shape).addTokenWithLiteral_eq, List.nil_append]
  simp [moved, startLexeme, past, Placed.event?, Placed.token?, Placed.error?, Token.decoded,
    decoded]

theorem addToken_eq_past (cut : scanner.Cut source behind lexeme)
    (shape : scanner.upcoming = text ++ following) {kind : TokenKind}
    (plain : kind ≠ .string ∧ kind ≠ .number) :
    (scanner.startLexeme.moved text following).addToken kind =
      some (scanner.past start ⟨.token kind, text⟩ following) :=
  addTokenWithLiteral_eq_past start cut shape
    fun _ => Token.literal_eq_none plain.1 plain.2

theorem matchOne_moved (sameLine : c ≠ '\n') :
    (scanner.moved text (c :: rest)).matchOne c = (true, scanner.moved (text ++ [c]) rest) := by
  have next : (scanner.moved text (c :: rest)).peekOne = some c := rfl
  rw [matchOne, if_pos next, advance_moved sameLine]

theorem matchOne_moved_of_ne (absent : ∀ after, rest ≠ c :: after) :
    (scanner.moved text rest).matchOne c = (false, scanner.moved text rest) := by
  rw [matchOne, if_neg]
  intro next
  obtain ⟨after, shape⟩ := List.head?_eq_some_iff.mp next
  exact absent after shape

/-! ## Numerals and strings -/

theorem currentLexeme?_moved (cut : scanner.Cut source behind lexeme)
    (shape : scanner.upcoming = text ++ following) :
    (scanner.startLexeme.moved text following).currentLexeme? = some (String.ofList text) := by
  rw [(cut.startLexeme.moved shape).currentLexeme?_eq, List.nil_append]

theorem consumeFraction_of_point (cut : scanner.Cut source behind lexeme) {digit : Char}
    (shape : scanner.upcoming = '.' :: digit :: rest) :
    scanner.consumeFraction = some (
      if isDigit digit then
        scanner.moved ('.' :: digit :: rest.takeWhile isDigit) (rest.dropWhile isDigit)
      else scanner) := by
  have next : scanner.peekOne = some '.' := by rw [peekOne, shape, List.head?_cons]
  have second : scanner.peekTwo? = some (some digit) := by
    rw [cut.peekTwo?_eq, shape]
    rfl
  rw [consumeFraction, if_pos next, second]
  by_cases test : isDigit digit = true
  · have taken : (scanner.moved ['.'] (digit :: rest)).consumeDigits =
        scanner.moved ('.' :: digit :: rest.takeWhile isDigit) (rest.dropWhile isDigit) := by
      rw [consumeDigits, advanceWhile_eq (by decide), moved_moved]
      simp [moved, test]
    simp [test, advance_eq shape, taken]
  · simp [test]

theorem consumeFraction_of_ne (cut : scanner.Cut source behind lexeme)
    (absent : ∀ digit rest, scanner.upcoming ≠ '.' :: digit :: rest) :
    scanner.consumeFraction = some scanner := by
  rw [consumeFraction, cut.peekTwo?_eq]
  split
  · next point =>
    obtain ⟨after, shape⟩ := List.head?_eq_some_iff.mp point
    cases after with
    | nil => simp [shape]
    | cons digit rest => exact absurd shape (absent digit rest)
  · rfl

/-- Digits, and a point and more digits if there are any, are taken as a numeral divides them. -/
theorem consumeFraction_consumeDigits (cut : scanner.Cut source behind lexeme) :
    scanner.consumeDigits.consumeFraction = some
      (scanner.moved (Numeral.split scanner.upcoming).1 (Numeral.split scanner.upcoming).2) := by
  have whole : (scanner.moved (scanner.upcoming.takeWhile isDigit)
      (scanner.upcoming.dropWhile isDigit)).Cut source behind _ :=
    cut.moved List.takeWhile_append_dropWhile.symm
  rw [consumeDigits, advanceWhile_eq (by decide), Numeral.split]
  split
  · next digit rest point =>
    rw [point] at whole ⊢
    rw [consumeFraction_of_point whole rfl, moved_moved]
    split <;> rfl
  · next absent =>
    exact consumeFraction_of_ne whole absent

theorem consumeString_open (cut : scanner.Cut source behind lexeme) {body : List Char}
    (inside : '"' ∉ body) (shape : scanner.upcoming = '"' :: body) :
    (scanner.startLexeme.moved ['"'] body).consumeString = some
      (some (.unterminatedString (String.ofList ('"' :: body))
        (scanner.line + ('"' :: body).count '\n')),
        scanner.startLexeme.moved ('"' :: body) []) := by
  have all := all_bne_of_not_mem inside
  have ran : (scanner.startLexeme.moved ['"'] body).advanceToQuote =
      scanner.startLexeme.moved ('"' :: body) [] := by
    rw [advanceToQuote_eq, moved_moved]
    simp [moved, List.takeWhile_eq_self_iff.mpr all, List.dropWhile_eq_nil_iff.mpr all]
  have parts : scanner.upcoming = '"' :: body ++ [] := by rw [shape, List.append_nil]
  have atEnd := (cut.startLexeme.moved parts).isAtEnd_iff.mpr rfl
  rw [consumeString, ran, if_pos atEnd, currentLexeme?_moved cut parts]
  rfl

theorem slice?_unquoted (body : List Char) :
    slice? (String.ofList ('"' :: (body ++ ['"']))) 1
        ((String.ofList ('"' :: (body ++ ['"']))).utf8ByteSize - 1) =
      some (String.ofList body) := by
  have parts : (String.ofList ('"' :: (body ++ ['"']))).toList = ['"'] ++ body ++ ['"'] := by
    rw [String.toList_ofList, List.append_assoc]
    rfl
  have quote : byteLength ['"'] = 1 := byteLength_singleton '"'
  have size : (String.ofList ('"' :: (body ++ ['"']))).utf8ByteSize =
      byteLength (['"'] ++ body) + 1 := by
    rw [← quote, ← byteLength_append]
    rfl
  rw [size, Nat.add_sub_cancel, ← quote]
  exact slice?_of_parts parts

theorem consumeString_closed (cut : scanner.Cut source behind lexeme) {body after : List Char}
    (inside : '"' ∉ body) (shape : scanner.upcoming = '"' :: (body ++ '"' :: after)) :
    (scanner.startLexeme.moved ['"'] (body ++ '"' :: after)).consumeString = some
      (none, scanner.past start ⟨.token .string, '"' :: (body ++ ['"'])⟩ after) := by
  have all := all_bne_of_not_mem inside
  have quote : StartsOutside (· != '"') ('"' :: after) :=
    (startsOutside_cons _ _ _).mpr (by decide)
  have ran : (scanner.startLexeme.moved ['"'] (body ++ '"' :: after)).advanceToQuote =
      scanner.startLexeme.moved ('"' :: body) ('"' :: after) := by
    rw [advanceToQuote_eq, moved_moved]
    simp only [moved, takeWhile_append_of_startsOutside all quote,
      dropWhile_append_of_startsOutside all quote, List.singleton_append]
  have reached : (scanner.startLexeme.moved ('"' :: body) ('"' :: after)).Cut source _ _ :=
    cut.startLexeme.moved shape
  -- The end is asked for by the offset, and the closing quote is known from what is to come.
  have notAtEnd : ¬ (scanner.startLexeme.moved ('"' :: body) ('"' :: after)).isAtEnd = true :=
    fun atEnd => List.cons_ne_nil _ _ (reached.isAtEnd_iff.mp atEnd)
  have parts : scanner.upcoming = '"' :: (body ++ ['"']) ++ after := by simp [shape]
  have decoded : ∀ line, Token.literal ⟨.string, String.ofList ('"' :: (body ++ ['"'])), line⟩ =
      some (.string (String.ofList body)) := by
    simp [Token.literal]
  rw [consumeString, ran, if_neg notAtEnd, advance_moved (by decide)]
  dsimp only [List.cons_append]
  rw [currentLexeme?_moved cut parts]
  simp only [Option.bind_eq_bind, Option.bind_some, slice?_unquoted]
  rw [addTokenWithLiteral_eq_past start cut parts decoded]
  rfl

/-! ## A turn for each role of the first character -/

theorem turn_eq_of_error {next : Scanner} {error : LexicalError}
    (scanned : scanner.startLexeme.scanToken = some (some error, next)) :
    scanner.turn = some (next.addError error) := by
  rw [turn, scanned]
  rfl

theorem turn_eq_of_none {next : Scanner}
    (scanned : scanner.startLexeme.scanToken = some (none, next)) : scanner.turn = some next := by
  rw [turn, scanned]
  rfl

section Turn

variable (cut : scanner.Cut source behind lexeme) (shape : scanner.upcoming = c :: rest)

include shape

/-- A turn takes the character that leads the lexeme before it looks at any other. -/
theorem startLexeme_advance (notBlank : Lead.ofChar c ≠ .blank) :
    scanner.startLexeme.advance = (some c, scanner.startLexeme.moved [c] rest) := by
  have sameLine : c ≠ '\n' := by
    rintro rfl
    exact notBlank (by decide)
  exact advance_eq shape sameLine

theorem turn_blank (role : Lead.ofChar c = .blank) :
    scanner.turn = some (scanner.past start ⟨.space, [c]⟩ rest) := by
  have taken : scanner.startLexeme.advance = (some c, scanner.startLexeme.advance.2) := by
    rw [advance, show scanner.startLexeme.upcoming = c :: rest from shape]
  have counted : scanner.startLexeme.advance.2.countFeed c = scanner.startLexeme.moved [c] rest :=
    countFeed_advance shape
  apply turn_eq_of_none
  rw [scanToken, taken]
  simp only [role]
  rw [counted, moved_eq_past start (.inl rfl)]

theorem turn_stray (role : Lead.ofChar c = .stray) :
    scanner.turn = some (scanner.past start ⟨.stray, [c]⟩ rest) := by
  rw [← addError_eq_past start .stray (by simp) rfl]
  apply turn_eq_of_error
  rw [scanToken, startLexeme_advance shape (by simp [role])]
  simp only [role]
  rfl

include cut

theorem turn_mark {kind : TokenKind} (role : Lead.ofChar c = .mark kind) :
    scanner.turn = some (scanner.past start ⟨.token kind, [c]⟩ rest) := by
  apply turn_eq_of_none
  rw [scanToken, startLexeme_advance shape (by simp [role])]
  simp only [role]
  rw [addToken_eq_past start cut shape (marks_plain _ (Lead.suits_of_ofChar role)),
    Option.map_some]

theorem turn_operator {alone withEqual : TokenKind}
    (role : Lead.ofChar c = .operator alone withEqual) :
    scanner.turn = some (scanner.past start (Piece.firstOperator c alone withEqual rest).1
      (Piece.firstOperator c alone withEqual rest).2) := by
  have suits := Lead.suits_of_ofChar role
  apply turn_eq_of_none
  rw [scanToken, startLexeme_advance shape (by simp [role])]
  simp only [role]
  unfold Piece.firstOperator
  split
  · next after =>
    rw [addOperator, matchOne_moved (by decide)]
    dsimp only
    rw [List.singleton_append, addToken_eq_past start cut shape (operators_plain _ suits.2),
      Option.map_some]
  · next absent =>
    rw [addOperator, matchOne_moved_of_ne absent]
    dsimp only
    rw [addToken_eq_past start cut shape (operators_plain _ suits.1), Option.map_some]

theorem turn_slash (role : Lead.ofChar c = .slash) :
    scanner.turn = some (scanner.past start (Piece.firstSlash c rest).1
      (Piece.firstSlash c rest).2) := by
  obtain rfl : c = '/' := Lead.suits_of_ofChar role
  have taken := startLexeme_advance shape (by simp [role])
  apply turn_eq_of_none
  unfold Piece.firstSlash
  split
  · next after =>
    rw [scanToken, taken]
    simp only [role]
    rw [matchOne_moved (by decide)]
    dsimp only
    rw [advanceWhile_eq (by decide), moved_moved, moved_eq_past start (.inr rfl)]
    rfl
  · next absent =>
    rw [scanToken, taken]
    simp only [role]
    rw [matchOne_moved_of_ne absent]
    dsimp only
    rw [addToken_eq_past start cut shape (by simp), Option.map_some]

theorem turn_letter (role : Lead.ofChar c = .letter) :
    scanner.turn = some (scanner.past start (Piece.firstWord c rest).1
      (Piece.firstWord c rest).2) := by
  have parts : scanner.upcoming =
      (c :: rest.takeWhile isWordChar) ++ rest.dropWhile isWordChar := by
    rw [List.cons_append, List.takeWhile_append_dropWhile, shape]
  have ran : (scanner.startLexeme.moved [c] rest).advanceWhile isWordChar =
      scanner.startLexeme.moved (c :: rest.takeWhile isWordChar) (rest.dropWhile isWordChar) := by
    rw [advanceWhile_eq (by decide), moved_moved]
    rfl
  apply turn_eq_of_none
  rw [scanToken, startLexeme_advance shape (by simp [role])]
  simp only [role]
  rw [consumeWord, ran, currentLexeme?_moved cut parts]
  simp only [Option.bind_eq_bind, Option.bind_some, String.toList_ofList]
  rw [addToken_eq_past start cut parts (ofWord_plain _), Option.map_some]
  rfl

theorem turn_digit (role : Lead.ofChar c = .digit) :
    scanner.turn = some (scanner.past start (Piece.firstNumeral c rest).1
      (Piece.firstNumeral c rest).2) := by
  have parts :
      scanner.upcoming = (Numeral.split (c :: rest)).1 ++ (Numeral.split (c :: rest)).2 := by
    rw [Numeral.split_append, shape]
  have taken : (scanner.startLexeme.moved [c] rest).Cut source (behind ++ lexeme) ([] ++ [c]) :=
    cut.startLexeme.moved shape
  have ran : (scanner.startLexeme.moved [c] rest).consumeDigits.consumeFraction = some
      (scanner.startLexeme.moved (Numeral.split (c :: rest)).1 (Numeral.split (c :: rest)).2) := by
    rw [consumeFraction_consumeDigits taken, moved_moved,
      Numeral.split_cons (Lead.ofChar_eq_digit_iff.mp role)]
    rfl
  apply turn_eq_of_none
  rw [scanToken, startLexeme_advance shape (by simp [role])]
  simp only [role]
  rw [consumeNumber, ran]
  simp only [Option.bind_eq_bind, Option.bind_some]
  rw [currentLexeme?_moved cut parts]
  simp only [Option.bind_some]
  rw [addTokenWithLiteral_eq_past start cut parts fun line => rfl]
  rfl

theorem turn_quote (role : Lead.ofChar c = .quote) :
    scanner.turn = some (scanner.past start (Piece.firstString c rest).1
      (Piece.firstString c rest).2) := by
  obtain rfl : c = '"' := Lead.suits_of_ofChar role
  have scanned : scanner.startLexeme.scanToken =
      (scanner.startLexeme.moved ['"'] rest).consumeString := by
    rw [scanToken, startLexeme_advance shape (by simp [role])]
    simp only [role]
  by_cases quoted : '"' ∈ rest
  · obtain ⟨body, after, rfl, inside⟩ := List.eq_append_cons_of_mem quoted
    rw [consumeString_closed start cut inside shape] at scanned
    rw [turn_eq_of_none scanned, Piece.firstString_closed inside]
  · rw [consumeString_open cut quoted shape] at scanned
    rw [turn_eq_of_error scanned, Piece.firstString_open quoted,
      addError_eq_past start .openString (by simp) rfl]

theorem turn_eq : scanner.turn =
    some (scanner.past start (Piece.first c rest).1 (Piece.first c rest).2) := by
  unfold Piece.first
  cases role : Lead.ofChar c with
  | mark kind => exact turn_mark start cut shape role
  | operator alone withEqual => exact turn_operator start cut shape role
  | slash => exact turn_slash start cut shape role
  | blank => exact turn_blank start shape role
  | quote => exact turn_quote start cut shape role
  | digit => exact turn_digit start cut shape role
  | letter => exact turn_letter start cut shape role
  | stray => exact turn_stray start shape role

end Turn

end Piece

end Lox.Scanner

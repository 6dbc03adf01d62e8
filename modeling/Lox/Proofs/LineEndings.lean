import Lox.Proofs.LineBreak
import Lox.Proofs.ListingDecoding

/-!
# Line endings

A source whose lines end in a carriage return and a line feed reads as the source with line feeds
alone. Between tokens a carriage return is a blank and in a comment it is a part of the comment, so
only strings show it.
-/

set_option autoImplicit false

namespace Lox

def returned (c : Char) : List Char :=
  if c = '\n' then ['\r', '\n'] else [c]

/-- The text with a carriage return in front of every line feed. -/
def withReturns (text : String) : String :=
  String.ofList (text.toList.flatMap returned)

def Literal.withReturns : Literal → Literal
  | .number value => .number value
  | .string value => .string (Lox.withReturns value)

def Token.withReturns (token : Token) : Token :=
  { token with lexeme := Lox.withReturns token.lexeme }

def LexicalError.withReturns : LexicalError → LexicalError
  | .unexpectedCharacter character line => .unexpectedCharacter character line
  | .unterminatedString text line => .unterminatedString (Lox.withReturns text) line

/-! ## Texts -/

theorem flatMap_returned_cons {c : Char} (notFeed : c ≠ '\n') (rest : List Char) :
    (c :: rest).flatMap returned = c :: rest.flatMap returned := by
  rw [List.flatMap_cons, returned, if_neg notFeed, List.singleton_append]

theorem flatMap_returned_lineFeed (rest : List Char) :
    ('\n' :: rest).flatMap returned = '\r' :: '\n' :: rest.flatMap returned :=
  rfl

theorem flatMap_returned_of_not_mem {text : List Char} (inside : '\n' ∉ text) :
    text.flatMap returned = text := by
  induction text with
  | nil => rfl
  | cons c rest ih =>
      obtain ⟨notFeed, restInside⟩ := List.ne_and_not_mem_of_not_mem_cons inside
      rw [flatMap_returned_cons notFeed.symm, ih restInside]

theorem mem_flatMap_returned_iff {c : Char} (notReturn : c ≠ '\r') {text : List Char} :
    c ∈ text.flatMap returned ↔ c ∈ text := by
  have alone : ∀ other, c ∈ returned other ↔ c = other := by
    intro other
    unfold returned
    split <;> simp_all
  simp [List.mem_flatMap, alone]

theorem flatMap_returned_quoted (body : List Char) :
    ('"' :: (body ++ ['"'])).flatMap returned = '"' :: (body.flatMap returned ++ ['"']) := by
  rw [flatMap_returned_cons (by decide), List.flatMap_append]
  rfl

theorem count_flatMap_returned (text : List Char) :
    (text.flatMap returned).count '\n' = text.count '\n' := by
  induction text with
  | nil => rfl
  | cons c rest ih =>
      by_cases feed : c = '\n'
      · subst feed
        rw [flatMap_returned_lineFeed, List.count_cons_of_ne (by decide), List.count_cons_self,
          List.count_cons_self, ih]
      · rw [flatMap_returned_cons feed, List.count_cons_of_ne feed, List.count_cons_of_ne feed, ih]

theorem startsFraction_flatMap_returned (text : List Char) :
    startsFraction (text.flatMap returned) = startsFraction text := by
  cases text with
  | nil => rfl
  | cons c rest =>
      by_cases feed : c = '\n'
      · subst feed
        rfl
      · rw [flatMap_returned_cons feed, startsFraction_cons, startsFraction_cons]
        cases rest with
        | nil => rfl
        | cons second others =>
            by_cases secondFeed : second = '\n'
            · subst secondFeed
              rfl
            · rw [flatMap_returned_cons secondFeed]
              rfl

/-! ## Pieces -/

namespace Piece

def withReturns (piece : Piece) : Piece :=
  ⟨piece.kind, piece.text.flatMap returned⟩

private theorem withReturns_of_not_mem {piece : Piece} (inside : '\n' ∉ piece.text) :
    piece.withReturns = piece := by
  rw [withReturns, flatMap_returned_of_not_mem inside]

/-- Strings aside, the line feed alone is changed, and is then no piece but two. -/
theorem WellFormed.withReturns {piece : Piece} (formed : piece.WellFormed)
    (notFeed : piece.text ≠ ['\n']) : piece.withReturns.WellFormed := by
  have quote : '"' ≠ '\r' := by decide
  cases formed with
  | stray role =>
      rw [withReturns_of_not_mem]
      · exact .stray role
      · exact fun member => (Lead.ne_of_stray role).2 (List.mem_singleton.mp member).symm
  | openString inside => exact .openString (mt (mem_flatMap_returned_iff quote).mp inside)
  | @lexeme kind text lexeme =>
      cases kind with
      | stray | openString => cases lexeme
      | space =>
          cases lexeme with
          | @blank c blank =>
              rw [withReturns_of_not_mem]
              · exact .lexeme (.blank blank)
              · intro member
                exact notFeed (congrArg ([·]) (List.mem_singleton.mp member).symm)
      | comment =>
          cases lexeme with
          | comment inside =>
              rw [withReturns_of_not_mem (by simpa using inside)]
              exact .lexeme (.comment inside)
      | token kind =>
          by_cases string : kind = .string
          · subst string
            obtain ⟨body, inside, rfl⟩ := lexeme.exists_body
            rw [Piece.withReturns, flatMap_returned_quoted]
            exact .lexeme (.string (mt (mem_flatMap_returned_iff quote).mp inside))
          · rw [withReturns_of_not_mem]
            · exact .lexeme lexeme
            · exact lexeme.blank_not_mem (.inr (.inr (.inr rfl))) string

private theorem endsBefore_flatMap_returned {piece : Piece} {following : List Char}
    (ends : piece.EndsBefore following) (notComment : piece.kind ≠ .comment) :
    piece.EndsBefore (following.flatMap returned) := by
  have fraction := (startsFraction_flatMap_returned following).symm
  cases following with
  | nil => exact ends
  | cons c rest =>
      by_cases feed : c = '\n'
      · subst feed
        apply endsBefore_of_separator (.inl (by decide)) _ notComment
        intro isOpen
        rw [EndsBefore, isOpen] at ends
        cases ends
      · rw [flatMap_returned_cons feed] at fraction ⊢
        exact ends.congr rfl fraction

/-- A carriage return in front of a line feed hides nothing from a piece that ends there, but for a
comment, which takes it in. -/
theorem EndsBefore.withReturns {piece : Piece} {following : List Char}
    (ends : piece.EndsBefore following) (notComment : piece.kind ≠ .comment) :
    piece.withReturns.EndsBefore (following.flatMap returned) := by
  have behind := endsBefore_flatMap_returned ends notComment
  obtain ⟨kind, text⟩ := piece
  cases kind with
  | token kind =>
      cases kind
      -- Of its own text a piece sees one thing only: whether a number has its point.
      case number =>
        exact behind.imp_right (Or.imp_left (mem_flatMap_returned_iff (by decide)).mpr)
      all_goals exact behind
  | space | comment | stray | openString => exact behind

end Piece

theorem pieces_flatMap_returned {c : Char} {rest following : List Char} {piece : Piece}
    (taken : Piece.first c rest = (piece, following)) (notFeed : c ≠ '\n')
    (notComment : piece.kind ≠ .comment) :
    pieces ((c :: rest).flatMap returned) =
      piece.withReturns :: pieces (following.flatMap returned) := by
  obtain ⟨formed, ends, parts⟩ := Piece.first_eq_iff.mp taken
  have front : piece.text ≠ ['\n'] := by
    intro same
    rw [same] at parts
    exact notFeed (List.cons.inj parts).1.symm
  rw [← parts, List.flatMap_append]
  exact (formed.withReturns front).pieces_append (ends.withReturns notComment)

/-! ## What is read -/

section Shown

variable {Item : Type} {shown : Placed → Option Item} {converted : Item → Item}
  (silent : ∀ piece start line, piece.kind = .space ∨ piece.kind = .comment →
    shown ⟨piece, start, line⟩ = none)
  (converts : ∀ piece start newStart line, piece.WellFormed →
    shown ⟨piece.withReturns, newStart, line⟩ = (shown ⟨piece, start, line⟩).map converted)

include silent

private theorem filterMap_placeFrom_cons_of_silent {piece : Piece}
    (quiet : piece.kind = .space ∨ piece.kind = .comment) (start line : Nat)
    (rest : List Piece) :
    (placeFrom start line (piece :: rest)).filterMap shown =
      (placeFrom (start + piece.text.length) (line + piece.text.count '\n') rest).filterMap
        shown := by
  rw [placeFrom_cons, List.filterMap_cons_none (silent _ _ _ quiet)]

private theorem filterMap_placeFrom_return (text : List Char) (start line : Nat) :
    (placeFrom start line (pieces ('\r' :: text))).filterMap shown =
      (placeFrom (start + 1) line (pieces text)).filterMap shown := by
  have taken : Piece.first '\r' text = (⟨.space, ['\r']⟩, text) := rfl
  rw [pieces_cons, taken, filterMap_placeFrom_cons_of_silent silent (.inl rfl)]
  rfl

/-- A comment is as silent with the carriage return that it takes in. -/
private theorem filterMap_placeFrom_comment {c : Char} {rest following : List Char} {piece : Piece}
    (taken : Piece.first c rest = (piece, following)) (comment : piece.kind = .comment)
    (start line : Nat) :
    (placeFrom start line (pieces ((c :: rest).flatMap returned))).filterMap shown =
      (placeFrom (start + piece.text.length) line (pieces (following.flatMap returned))).filterMap
        shown := by
  obtain ⟨formed, ends, parts⟩ := Piece.first_eq_iff.mp taken
  obtain ⟨body, inside, rfl⟩ := formed.exists_comment comment
  have text : ('/' :: '/' :: body).flatMap returned = '/' :: '/' :: body :=
    flatMap_returned_of_not_mem (by simpa using inside)
  rw [← parts, List.flatMap_append, text]
  cases following with
  | nil =>
      rw [List.flatMap_nil, formed.pieces_append (Piece.endsBefore_nil _),
        filterMap_placeFrom_cons_of_silent silent (.inr rfl), formed.count_of_comment rfl]
      rfl
  | cons next after =>
      obtain rfl : next = '\n' := by simpa using (startsOutside_cons _ _ _).mp ends
      have longer : Piece.WellFormed ⟨.comment, '/' :: '/' :: (body ++ ['\r'])⟩ :=
        .lexeme (.comment (by simp [inside]))
      have longerEnds : Piece.EndsBefore ⟨.comment, '/' :: '/' :: (body ++ ['\r'])⟩
          ('\n' :: after.flatMap returned) := (startsOutside_cons _ _ _).mpr (by decide)
      have shape : '/' :: '/' :: body ++ '\r' :: '\n' :: after.flatMap returned =
          '/' :: '/' :: (body ++ ['\r']) ++ '\n' :: after.flatMap returned := by simp
      rw [flatMap_returned_lineFeed, filterMap_placeFrom_return silent, shape,
        longer.pieces_append longerEnds,
        filterMap_placeFrom_cons_of_silent silent (.inr rfl), longer.count_of_comment rfl]
      simp [Nat.add_assoc]

include converts

private theorem filterMap_placeFrom_returned (text : List Char) (start newStart line : Nat) :
    (placeFrom newStart line (pieces (text.flatMap returned))).filterMap shown =
      ((placeFrom start line (pieces text)).filterMap shown).map converted := by
  induction text using pieces_induction generalizing start newStart line with
  | nil => simp
  | cons c rest piece following taken ih =>
      have formed := (Piece.first_eq_iff.mp taken).1
      rw [pieces_cons c rest, taken]
      -- A carriage return is a blank of its own, or part of a comment, or inside a string.
      by_cases feed : c = '\n'
      · subst feed
        cases taken
        have first : ∀ rest, Piece.first '\n' rest = (⟨.space, ['\n']⟩, rest) := fun _ => rfl
        rw [flatMap_returned_lineFeed, filterMap_placeFrom_return silent, pieces_cons, first,
          filterMap_placeFrom_cons_of_silent silent (.inl rfl),
          filterMap_placeFrom_cons_of_silent silent (.inl rfl)]
        exact ih _ _ _
      · by_cases comment : piece.kind = .comment
        · rw [filterMap_placeFrom_comment silent taken comment,
            filterMap_placeFrom_cons_of_silent silent (.inr comment),
            formed.count_of_comment comment]
          exact ih _ _ _
        · have lines : piece.withReturns.text.count '\n' = piece.text.count '\n' :=
            count_flatMap_returned _
          have head := converts piece start newStart (line + piece.text.count '\n') formed
          have tail := ih (start + piece.text.length)
            (newStart + piece.withReturns.text.length) (line + piece.text.count '\n')
          rw [pieces_flatMap_returned taken feed comment, placeFrom_cons, placeFrom_cons, lines,
            List.filterMap_cons, List.filterMap_cons, head, tail]
          cases shown ⟨piece, start, line + piece.text.count '\n'⟩ with
          | none => rfl
          | some item => rfl

end Shown

private theorem token?_withReturns (piece : Piece) (start newStart line : Nat) :
    Placed.token? ⟨piece.withReturns, newStart, line⟩ =
      (Placed.token? ⟨piece, start, line⟩).map Token.withReturns := by
  obtain ⟨kind, text⟩ := piece
  cases kind with
  | token kind => simp [Piece.withReturns, Placed.token?, Token.withReturns, withReturns]
  | space | comment | stray | openString => rfl

private theorem error?_withReturns {piece : Piece} (formed : piece.WellFormed)
    (start newStart line : Nat) :
    Placed.error? ⟨piece.withReturns, newStart, line⟩ =
      (Placed.error? ⟨piece, start, line⟩).map LexicalError.withReturns := by
  cases formed with
  | lexeme lexeme => cases lexeme <;> rfl
  | stray role =>
      rw [Piece.withReturns, flatMap_returned_cons (Lead.ne_of_stray role).2]
      rfl
  | openString =>
      simp [Piece.withReturns, Placed.error?, LexicalError.withReturns, withReturns]

theorem Token.Spelled.literal_withReturns {token : Token} (spelled : token.Spelled) :
    token.withReturns.literal = token.literal.map Literal.withReturns := by
  by_cases string : token.kind = .string
  · obtain ⟨body, _, shape⟩ := spelled.exists_body string
    have lexeme : token.withReturns.lexeme.toList = '"' :: (body.flatMap returned ++ ['"']) := by
      rw [withReturns, Lox.withReturns, String.toList_ofList, shape, flatMap_returned_quoted]
    have kind : token.withReturns.kind = .string := string
    rw [literal, literal, kind, string, lexeme, shape]
    simp [Literal.withReturns, Lox.withReturns]
  · have free := spelled.blank_not_mem (.inr (.inr (.inr rfl))) string
    have same : token.withReturns = token := by
      rw [withReturns, Lox.withReturns, flatMap_returned_of_not_mem free, String.ofList_toList]
    rw [same, literal]
    split
    · next kind => exact absurd kind string
    · rfl
    · rfl

private theorem tokens_withReturns (source : String) :
    (lex (withReturns source)).tokens = (lex source).tokens.map Token.withReturns := by
  have silent : ∀ piece start line, piece.kind = .space ∨ piece.kind = .comment →
      Placed.token? ⟨piece, start, line⟩ = none := by
    rintro ⟨kind, text⟩ start line (rfl | rfl) <;> rfl
  have shown := filterMap_placeFrom_returned silent
    (fun piece start newStart line _ => token?_withReturns piece start newStart line)
    source.toList 0 0 1
  have lines : lineCount (source.toList.flatMap returned) = lineCount source.toList := by
    rw [lineCount, count_flatMap_returned, lineCount]
  rw [lex, lex, withReturns, String.toList_ofList, placedPieces, placedPieces, shown, lines,
    List.map_append]
  rfl

private theorem errors_withReturns (source : String) :
    (lex (withReturns source)).errors = (lex source).errors.map LexicalError.withReturns := by
  have silent : ∀ piece start line, piece.kind = .space ∨ piece.kind = .comment →
      Placed.error? ⟨piece, start, line⟩ = none := by
    rintro ⟨kind, text⟩ start line (rfl | rfl) <;> rfl
  have shown := filterMap_placeFrom_returned silent
    (fun _ start newStart line formed => error?_withReturns formed start newStart line)
    source.toList 0 0 1
  rw [lex, lex, withReturns, String.toList_ofList]
  exact shown

/-- Where every line of a source ends in a carriage return and a line feed, tokens and errors are
those of the source with line feeds alone, on the same lines and with the same line ends in their
texts. -/
theorem lex_withReturns (source : String) :
    (lex (withReturns source)).tokens = (lex source).tokens.map Token.withReturns ∧
      (lex (withReturns source)).tokens.map Token.literal =
        (lex source).tokens.map (fun token => token.literal.map Literal.withReturns) ∧
      (lex (withReturns source)).errors =
        (lex source).errors.map LexicalError.withReturns := by
  have tokens := tokens_withReturns source
  refine ⟨tokens, ?_, errors_withReturns source⟩
  rw [tokens, List.map_map]
  exact List.map_congr_left fun _ member => (spelled_of_mem_tokens member).literal_withReturns

/-- The carriage return goes into the comment, and into the string that is left open. -/
example :
    withReturns "1.// \n\"a\nb" = "1.// \r\n\"a\r\nb" ∧
      lex "1.// \r\n\"a\r\nb" =
        ⟨[⟨.number, "1", 1⟩, ⟨.dot, ".", 1⟩, ⟨.eof, "", 3⟩],
          [.unterminatedString "\"a\r\nb" 3]⟩ := by
  decide +kernel

end Lox

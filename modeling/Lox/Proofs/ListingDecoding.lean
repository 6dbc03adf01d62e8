import Lox.Proofs.LayoutLexing
import Lox.Proofs.ListingExactness
import Mathlib.Data.List.Nodup

/-!
# Reading listings back

What a listing writes tells which tokens and errors there are. Nothing is escaped and strings run
over several lines, but a reader who begins at the front always knows where a token ends: at the
second quote of a string and at the second space of anything else.
-/

set_option autoImplicit false

namespace Lox

/-! ## Self-delimiting texts -/

/-- Items whose texts can be told from each other, and from what follows them, by reading on from
the front. The view of an item is what its text tells about it, and settles the text. -/
structure SelfDelimiting {Item View : Type} (text : Item → String) (view : Item → View)
    (Valid : Item → Prop) : Prop where
  ne_nil : ∀ item, (text item).toList ≠ []
  text_eq : ∀ {left right}, view left = view right → text left = text right
  append_inj : ∀ {left right}, Valid left → Valid right → ∀ {leftRest rightRest},
    (text left).toList ++ leftRest = (text right).toList ++ rightRest →
      view left = view right ∧ leftRest = rightRest

section SelfDelimiting

variable {Item View : Type} {text : Item → String} {view : Item → View} {Valid : Item → Prop}
  (delimited : SelfDelimiting text view Valid)

include delimited

theorem SelfDelimiting.map_eq_of_flatMap_eq {lefts rights : List Item}
    (leftsValid : ∀ item ∈ lefts, Valid item) (rightsValid : ∀ item ∈ rights, Valid item)
    (same : lefts.flatMap (fun item => (text item).toList) =
      rights.flatMap fun item => (text item).toList) :
    lefts.map view = rights.map view := by
  induction lefts generalizing rights with
  | nil =>
      cases rights with
      | nil => rfl
      | cons right rights =>
          exact absurd (List.append_eq_nil_iff.mp same.symm).1 (delimited.ne_nil right)
  | cons left lefts ih =>
      cases rights with
      | nil => exact absurd (List.append_eq_nil_iff.mp same).1 (delimited.ne_nil left)
      | cons right rights =>
          rw [List.forall_mem_cons] at leftsValid rightsValid
          simp only [List.flatMap_cons] at same
          obtain ⟨sameView, sameRest⟩ := delimited.append_inj leftsValid.1 rightsValid.1 same
          rw [List.map_cons, List.map_cons, sameView, ih leftsValid.2 rightsValid.2 sameRest]

theorem SelfDelimiting.map_text_eq {lefts rights : List Item}
    (same : lefts.map view = rights.map view) : lefts.map text = rights.map text := by
  induction lefts generalizing rights with
  | nil =>
      cases rights with
      | nil => rfl
      | cons right rights => simp at same
  | cons left lefts ih =>
      cases rights with
      | nil => simp at same
      | cons right rights =>
          simp only [List.map_cons, List.cons.injEq] at same
          rw [List.map_cons, List.map_cons, delimited.text_eq same.1, ih same.2]

/-- Texts that are joined without anything between them tell as much as the items apart. -/
theorem SelfDelimiting.join_eq_iff {lefts rights : List Item}
    (leftsValid : ∀ item ∈ lefts, Valid item) (rightsValid : ∀ item ∈ rights, Valid item) :
    String.join (lefts.map text) = String.join (rights.map text) ↔
      lefts.map view = rights.map view := by
  constructor
  · intro same
    have chars := congrArg String.toList same
    simp only [String.toList_join, List.flatMap_map] at chars
    exact delimited.map_eq_of_flatMap_eq leftsValid rightsValid chars
  · intro same
    rw [delimited.map_text_eq same]

end SelfDelimiting

/-- Where a character is met for the first time, there the texts before it end. -/
private theorem append_cons_inj {stop : Char} {left right leftRest rightRest : List Char}
    (leftFree : stop ∉ left) (rightFree : stop ∉ right)
    (same : left ++ stop :: leftRest = right ++ stop :: rightRest) :
    left = right ∧ leftRest = rightRest := by
  have stops : ∀ rest, StartsOutside (· != stop) (stop :: rest) := by simp
  have before := congrArg (List.takeWhile (· != stop)) same
  rw [takeWhile_append_of_startsOutside (all_bne_of_not_mem leftFree) (stops _),
    takeWhile_append_of_startsOutside (all_bne_of_not_mem rightFree) (stops _)] at before
  subst before
  exact ⟨rfl, (List.cons.inj (List.append_cancel_left same)).2⟩

/-! ## Tokens -/

def TokenKind.all : List TokenKind :=
  marks.map Prod.snd ++ operators.map Prod.snd ++ Keyword.all.map .keyword ++
    [.identifier, .string, .number, .eof]

theorem TokenKind.mem_all (kind : TokenKind) : kind ∈ all := by
  cases kind
  case keyword word => simp [all, Keyword.mem_all]
  all_goals simp [all, marks, operators]

theorem TokenKind.name_injective {left right : TokenKind} (same : left.name = right.name) :
    left = right := by
  have distinct : (all.map name).Nodup := by decide +kernel
  exact List.inj_on_of_nodup_map distinct left.mem_all right.mem_all same

theorem TokenKind.space_not_mem_name (kind : TokenKind) : ' ' ∉ kind.name.toList := by
  have free : ∀ kind ∈ all, ' ' ∉ kind.name.toList := by decide +kernel
  exact free kind kind.mem_all

theorem Lexeme.blank_not_mem {kind : TokenKind} {text : List Char} {c : Char} (blank : IsBlank c)
    (lexeme : Lexeme (.token kind) text) (notString : kind ≠ .string) : c ∉ text := by
  have notWordChar : isWordChar c = false := by
    rcases blank with rfl | rfl | rfl | rfl <;> decide
  have wordChar : ¬ (IsLetter c ∨ IsDigit c) := mt isWordChar_iff.mpr (by simp [notWordChar])
  cases lexeme with
  | mark member =>
      have free : ∀ entry ∈ marks, isBlank entry.1 = false := by decide
      intro same
      rw [← List.mem_singleton.mp same] at member
      exact absurd (isBlank_iff.mpr blank) (by simp [free _ member])
  | operator member =>
      have free : ∀ entry ∈ operators, entry.1.any isBlank = false := by decide
      intro inside
      exact List.any_eq_false.mp (free _ member) c inside (isBlank_iff.mpr blank)
  | integer _ all => exact fun member => wordChar (.inr (all c member))
  | decimal _ wholeAll _ fractionAll =>
      intro member
      rcases List.mem_append.mp member with whole | fraction
      · exact wordChar (.inr (wholeAll c whole))
      · rcases List.mem_cons.mp fraction with rfl | fraction
        · exact absurd (isBlank_iff.mpr blank) (by decide)
        · exact wordChar (.inr (fractionAll c fraction))
  | keyword letter all _ | identifier letter all _ =>
      intro member
      rcases List.mem_cons.mp member with first | rest
      · exact wordChar (.inl (first ▸ letter))
      · exact wordChar (all c rest)
  | string _ => exact absurd rfl notString

namespace Token

/-- A token as lexing makes it: the end of the source, or a word of its kind. -/
def Spelled (token : Token) : Prop :=
  (token.kind = .eof ∧ token.lexeme = "") ∨ Lexeme (.token token.kind) token.lexeme.toList

def closing (token : Token) : List Char :=
  ' ' :: ((token.literal.map Literal.text).getD "null").toList ++ ['\n']

theorem toList_listingLine (token : Token) :
    token.listingLine.toList =
      token.kind.name.toList ++ ' ' :: (token.lexeme.toList ++ token.closing) := by
  cases shown : token.literal <;> simp [listingLine, listing, closing, shown]

theorem Spelled.blank_not_mem {token : Token} {c : Char} (blank : IsBlank c)
    (spelled : token.Spelled) (notString : token.kind ≠ .string) : c ∉ token.lexeme.toList := by
  cases spelled with
  | inl last => simp [last.2]
  | inr lexeme => exact lexeme.blank_not_mem blank notString

theorem Spelled.exists_body {token : Token} (spelled : token.Spelled)
    (string : token.kind = .string) :
    ∃ body, '"' ∉ body ∧ token.lexeme.toList = '"' :: (body ++ ['"']) := by
  cases spelled with
  | inl last => exact nomatch last.1.symm.trans string
  | inr lexeme =>
      rw [string] at lexeme
      exact lexeme.exists_body

theorem Spelled.lexeme_eq {left right : Token} (leftSpelled : left.Spelled)
    (rightSpelled : right.Spelled) (sameKind : left.kind = right.kind)
    {leftRest rightRest : List Char}
    (same : left.lexeme.toList ++ ' ' :: leftRest = right.lexeme.toList ++ ' ' :: rightRest) :
    left.lexeme = right.lexeme := by
  apply String.toList_inj.mp
  -- A string may hold spaces but no quote; every other lexeme holds no space.
  by_cases string : left.kind = .string
  · obtain ⟨leftBody, leftInside, leftShape⟩ := leftSpelled.exists_body string
    obtain ⟨rightBody, rightInside, rightShape⟩ :=
      rightSpelled.exists_body (sameKind.symm.trans string)
    rw [leftShape, rightShape] at same ⊢
    simp only [List.cons_append, List.append_assoc, List.nil_append] at same
    rw [(append_cons_inj leftInside rightInside (List.cons.inj same).2).1]
  · have leftFree := leftSpelled.blank_not_mem (.inl rfl) string
    have rightFree := rightSpelled.blank_not_mem (.inl rfl) (sameKind ▸ string)
    exact (append_cons_inj leftFree rightFree same).1

theorem contents_eq {left right : Token} (sameKind : left.kind = right.kind)
    (sameLexeme : left.lexeme = right.lexeme) : left.contents = right.contents := by
  simp only [contents, literal, sameKind, sameLexeme]

theorem selfDelimiting_listingLine :
    SelfDelimiting listingLine contents Spelled where
  ne_nil token := by simp [toList_listingLine]
  text_eq {left right} same := by
    simp only [contents, Prod.mk.injEq] at same
    simp only [listingLine, listing, same]
  append_inj {left right} leftSpelled rightSpelled {leftRest rightRest} same := by
    simp only [toList_listingLine, List.append_assoc, List.cons_append] at same
    obtain ⟨sameName, sameTail⟩ :=
      append_cons_inj left.kind.space_not_mem_name right.kind.space_not_mem_name same
    have sameKind := TokenKind.name_injective (String.toList_inj.mp sameName)
    have sameLexeme := leftSpelled.lexeme_eq rightSpelled sameKind sameTail
    have sameContents := contents_eq sameKind sameLexeme
    have sameClosing : left.closing = right.closing := by
      rw [closing, closing, (Prod.mk.inj (Prod.mk.inj sameContents).2).2]
    rw [sameLexeme, sameClosing] at sameTail
    exact ⟨sameContents, List.append_cancel_left (List.append_cancel_left sameTail)⟩

end Token

theorem Placed.spelled_of_token? {placed : Placed} {token : Token}
    (formed : placed.piece.WellFormed) (shown : placed.token? = some token) : token.Spelled := by
  obtain ⟨isToken, shape⟩ := Placed.token?_eq_some_iff.mp shown
  have lexeme := formed.lexeme_of_token isToken
  rw [shape]
  refine .inr ?_
  rw [String.toList_ofList]
  exact lexeme

theorem spelled_of_mem_tokens {source : String} {token : Token}
    (member : token ∈ (lex source).tokens) : token.Spelled := by
  rcases List.mem_append.mp member with read | last
  · obtain ⟨placed, placedMember, shown⟩ := List.mem_filterMap.mp read
    obtain ⟨_, _, _, formed, _⟩ := exists_split_of_mem_placedPieces placedMember
    exact Placed.spelled_of_token? formed shown
  · rw [List.mem_singleton.mp last]
    exact .inl ⟨rfl, rfl⟩

/-! ## Errors -/

namespace LexicalError

/-- What the report of an error tells: the line, and the character if it was unexpected. -/
def told : LexicalError → Option Char × Nat
  | unexpectedCharacter character line => (some character, line)
  | unterminatedString _ line => (none, line)

theorem toList_report (error : LexicalError) :
    error.report.toList =
      "[line ".toList ++ (Nat.toDigits 10 error.line ++ ']' ::
        (" Error: ".toList ++ (error.message.toList ++ ['\n']))) := by
  simp [report, reportLine]

private theorem not_mem_toDigits {c : Char} (outside : isDigit c = false) (number : Nat) :
    c ∉ Nat.toDigits 10 number := by
  intro member
  have digit : isDigit c = true := Nat.isDigit_of_mem_toDigits (by decide) (by decide) member
  rw [digit] at outside
  cases outside

private theorem toDigits_injective {left right : Nat}
    (same : Nat.toDigits 10 left = Nat.toDigits 10 right) : left = right := by
  have read := congrArg (Nat.ofDigitChars 10 · 0) same
  simpa only [Nat.ofDigitChars_ten_toDigits] using read

private theorem toList_unexpected (character : Char) (line : Nat) :
    (unexpectedCharacter character line).message.toList =
      "Unexpected character: ".toList ++ [character] := by
  unfold message
  rw [String.toList_append, Char.toString_eq_singleton, String.toList_singleton]

private theorem unexpected_ne_unterminated (left right : List Char) :
    "Unexpected character: ".toList ++ left ≠ "Unterminated string.".toList ++ right := by
  simp

private theorem told_of_message {left right : LexicalError} (sameLine : left.line = right.line)
    {leftRest rightRest : List Char}
    (same : left.message.toList ++ '\n' :: leftRest = right.message.toList ++ '\n' :: rightRest) :
    left.told = right.told ∧ leftRest = rightRest := by
  cases left with
  | unexpectedCharacter leftCharacter leftLine =>
      cases right with
      | unexpectedCharacter rightCharacter rightLine =>
          rw [toList_unexpected, toList_unexpected, List.append_assoc, List.append_assoc] at same
          obtain ⟨sameCharacter, sameRest⟩ := List.cons.inj (List.append_cancel_left same)
          exact ⟨Prod.ext (congrArg some sameCharacter) sameLine, (List.cons.inj sameRest).2⟩
      | unterminatedString rightText rightLine =>
          rw [toList_unexpected, List.append_assoc] at same
          exact absurd same (unexpected_ne_unterminated _ _)
  | unterminatedString leftText leftLine =>
      cases right with
      | unexpectedCharacter rightCharacter rightLine =>
          rw [toList_unexpected, List.append_assoc] at same
          exact absurd same.symm (unexpected_ne_unterminated _ _)
      | unterminatedString rightText rightLine =>
          exact ⟨Prod.ext rfl sameLine, (List.cons.inj (List.append_cancel_left same)).2⟩

theorem report_eq_of_told {left right : LexicalError} (same : left.told = right.told) :
    left.report = right.report := by
  cases left with
  | unexpectedCharacter leftCharacter leftLine =>
      cases right with
      | unexpectedCharacter rightCharacter rightLine =>
          simp only [told, Prod.mk.injEq, Option.some.injEq] at same
          rw [same.1, same.2]
      | unterminatedString rightText rightLine => simp [told] at same
  | unterminatedString leftText leftLine =>
      cases right with
      | unexpectedCharacter rightCharacter rightLine => simp [told] at same
      | unterminatedString rightText rightLine =>
          simp only [told, Prod.mk.injEq, true_and] at same
          rw [same]
          rfl

theorem selfDelimiting_report :
    SelfDelimiting report told (fun _ => True) where
  ne_nil error := by simp [toList_report]
  text_eq := report_eq_of_told
  append_inj {left right} _ _ {leftRest rightRest} same := by
    simp only [toList_report, List.append_assoc, List.cons_append, List.nil_append] at same
    obtain ⟨sameDigits, sameTail⟩ := append_cons_inj (not_mem_toDigits (by decide) left.line)
      (not_mem_toDigits (by decide) right.line) (List.append_cancel_left same)
    exact told_of_message (toDigits_injective sameDigits) (List.append_cancel_left sameTail)

theorem lineFeed_not_mem_message {error : LexicalError}
    (notFeed : ∀ line, error ≠ .unexpectedCharacter '\n' line) :
    '\n' ∉ error.message.toList := by
  cases error with
  | unexpectedCharacter character line =>
      rw [toList_unexpected]
      intro member
      rcases List.mem_append.mp member with wording | shown
      · exact absurd wording (by decide)
      · exact notFeed line (by rw [List.mem_singleton.mp shown])
  | unterminatedString text line =>
      have free : '\n' ∉ "Unterminated string.".toList := by decide
      exact free

theorem exists_line_of_report {error : LexicalError}
    (notFeed : ∀ line, error ≠ .unexpectedCharacter '\n' line) :
    ∃ line, error.report = line ++ "\n" ∧ '\n' ∉ line.toList := by
  have digits : '\n' ∉ Nat.toDigits 10 error.line := not_mem_toDigits (by decide) error.line
  have message := lineFeed_not_mem_message notFeed
  refine ⟨"[line " ++ toString error.line ++ "] Error" ++ "" ++ ": " ++ error.message, rfl, ?_⟩
  simp [digits, message]

end LexicalError

theorem unexpected_ne_lineFeed {source : String} {error : LexicalError}
    (member : error ∈ (lex source).errors) (line : Nat) :
    error ≠ .unexpectedCharacter '\n' line := by
  rintro rfl
  obtain ⟨⟨piece, start, placedLine⟩, placedMember, shown⟩ := List.mem_filterMap.mp member
  obtain ⟨_, _, _, formed, _⟩ := exists_split_of_mem_placedPieces placedMember
  cases formed with
  | lexeme lexeme => exact nomatch (lexeme.error?_eq_none _ _).symm.trans shown
  | stray role =>
      cases shown
      exact (Lead.ne_of_stray role).2 rfl
  | openString => cases shown

/-! ## Whole listings -/

theorem tokenLines_eq_iff {left right : String} :
    tokenLines left = tokenLines right ↔
      (lex left).tokens.map Token.contents = (lex right).tokens.map Token.contents :=
  Token.selfDelimiting_listingLine.join_eq_iff
    (fun _ => spelled_of_mem_tokens) (fun _ => spelled_of_mem_tokens)

theorem errorLines_eq_iff {left right : String} :
    errorLines left = errorLines right ↔
      (lex left).errors.map LexicalError.told = (lex right).errors.map LexicalError.told :=
  LexicalError.selfDelimiting_report.join_eq_iff
    (fun _ _ => trivial) (fun _ _ => trivial)

/-- Two sources whose listings have the same output have the same tokens but for their lines, and
two whose listings have the same errors written have the same errors but for the text of a string
that is never closed. Every error is one line of its own. -/
theorem listings_equal_iff (left right : String) :
    ∃ leftConsole rightConsole : Console,
      (listSource left).run (.empty none none) = .ok (lex left).hasErrors leftConsole ∧
        (listSource right).run (.empty none none) = .ok (lex right).hasErrors rightConsole ∧
        (leftConsole.out.accepted = rightConsole.out.accepted ↔
          (lex left).tokens.map Token.contents = (lex right).tokens.map Token.contents) ∧
        (leftConsole.err.accepted = rightConsole.err.accepted ↔
          (lex left).errors.map LexicalError.told = (lex right).errors.map LexicalError.told) ∧
        leftConsole.err.accepted =
          (String.join ((lex left).errors.map LexicalError.report)).toUTF8 ∧
        ∀ error ∈ (lex left).errors,
          ∃ line, error.report = line ++ "\n" ∧ '\n' ∉ line.toList := by
  refine ⟨_, _, run_listSource_unlimited left, run_listSource_unlimited right, ?_, ?_, rfl, ?_⟩
  · exact String.toByteArray_inj.trans tokenLines_eq_iff
  · exact String.toByteArray_inj.trans errorLines_eq_iff
  · intro error member
    exact LexicalError.exists_line_of_report (unexpected_ne_lineFeed member)

end Lox

import Lox.Proofs.Grammar
import Mathlib.Data.List.TakeWhile

/-!
# Where a piece ends

What is taken off the front of a text depends on a piece and on the one or two characters after it.
`Piece.EndsBefore` is that dependence, and `Piece.first_eq_iff` says that nothing else matters.
-/

set_option autoImplicit false

namespace Lox

def StartsOutside (inside : Char → Bool) (following : List Char) : Prop :=
  ∀ next ∈ following.head?, inside next = false

@[simp] theorem startsOutside_nil (inside : Char → Bool) : StartsOutside inside [] := by
  simp [StartsOutside]

@[simp] theorem startsOutside_cons (inside : Char → Bool) (next : Char) (rest : List Char) :
    StartsOutside inside (next :: rest) ↔ inside next = false := by
  simp [StartsOutside]

theorem startsOutside_dropWhile (inside : Char → Bool) (text : List Char) :
    StartsOutside inside (text.dropWhile inside) := by
  intro next member
  have stopped := List.head?_dropWhile_not inside text
  rw [member] at stopped
  simpa using stopped

theorem takeWhile_append_of_startsOutside {inside : Char → Bool} {run following : List Char}
    (all : ∀ c ∈ run, inside c = true) (outside : StartsOutside inside following) :
    (run ++ following).takeWhile inside = run := by
  rw [List.takeWhile_append_of_pos all]
  cases following with
  | nil => simp
  | cons next rest => simp [(startsOutside_cons _ _ _).mp outside]

theorem dropWhile_append_of_startsOutside {inside : Char → Bool} {run following : List Char}
    (all : ∀ c ∈ run, inside c = true) (outside : StartsOutside inside following) :
    (run ++ following).dropWhile inside = following := by
  rw [List.dropWhile_append_of_pos all]
  cases following with
  | nil => rfl
  | cons next rest => simp [(startsOutside_cons _ _ _).mp outside]

theorem all_bne_of_not_mem {stop : Char} {run : List Char} (absent : stop ∉ run) :
    ∀ c ∈ run, (c != stop) = true := by
  intro c member
  exact bne_iff_ne.mpr fun same => absent (same ▸ member)

def startsFraction : List Char → Bool
  | '.' :: digit :: _ => isDigit digit
  | _ => false

namespace Piece

/-- Nothing of what follows belongs to the piece. Two characters decide at most, and the second
only after a numeral without a point. -/
def EndsBefore (piece : Piece) (following : List Char) : Prop :=
  match piece.kind with
  | .token .bang | .token .equal | .token .less | .token .greater =>
      StartsOutside (· == '=') following
  | .token .slash => StartsOutside (· == '/') following
  | .token .number =>
      StartsOutside isDigit following ∧ ('.' ∈ piece.text ∨ startsFraction following = false)
  | .token (.keyword _) | .token .identifier => StartsOutside isWordChar following
  | .comment => StartsOutside (· != '\n') following
  | .openString => following = []
  | _ => True

/-- A piece that some text can begin with: a word of its class, a character that begins no word or
a quote without a partner. -/
inductive WellFormed : Piece → Prop where
  | lexeme {kind : PieceKind} {text : List Char} : Lexeme kind text → WellFormed ⟨kind, text⟩
  | stray {c : Char} : Lead.ofChar c = .stray → WellFormed ⟨.stray, [c]⟩
  | openString {body : List Char} : '"' ∉ body → WellFormed ⟨.openString, '"' :: body⟩

theorem WellFormed.text_ne_nil {piece : Piece} (formed : piece.WellFormed) :
    piece.text ≠ [] := by
  cases formed with
  | lexeme lexeme => exact lexeme.ne_nil
  | stray | openString => exact List.cons_ne_nil _ _

theorem WellFormed.lexeme_of_token {piece : Piece} (formed : piece.WellFormed)
    {kind : TokenKind} (isToken : piece.kind = .token kind) :
    Lexeme (.token kind) piece.text := by
  cases formed with
  | lexeme lexeme => exact isToken ▸ lexeme
  | stray | openString => cases isToken

theorem endsBefore_mark {c : Char} {kind : TokenKind} (role : Lead.ofChar c = .mark kind)
    (text following : List Char) : EndsBefore ⟨.token kind, text⟩ following := by
  have suits : (c, kind) ∈ marks := Lead.suits_of_ofChar role
  have notSlash : c ≠ '/' := by
    intro slash
    subst slash
    exact absurd role (by simp [Lead.ofChar])
  simp only [marks, List.mem_cons, List.not_mem_nil, or_false, Prod.mk.injEq] at suits
  rcases suits with ⟨_, rfl⟩ | ⟨_, rfl⟩ | ⟨_, rfl⟩ | ⟨_, rfl⟩ | ⟨_, rfl⟩ | ⟨_, rfl⟩ |
    ⟨_, rfl⟩ | ⟨_, rfl⟩ | ⟨_, rfl⟩ | ⟨_, rfl⟩ | ⟨slash, rfl⟩
  case inr.inr.inr.inr.inr.inr.inr.inr.inr.inr => exact absurd slash notSlash
  all_goals trivial

section Operator

variable {sign : Char} {alone withEqual : TokenKind}
  (role : Lead.ofChar sign = .operator alone withEqual) (text following : List Char)

include role

theorem endsBefore_alone :
    EndsBefore ⟨.token alone, text⟩ following ↔ StartsOutside (· == '=') following := by
  have suits := Lead.suits_of_ofChar role
  have single : ∀ entry ∈ operators, entry.1.length = 1 →
      entry.2 ∈ [.bang, .equal, .less, .greater] := by decide
  have kinds := single ([sign], alone) suits.1 rfl
  simp only [List.mem_cons, List.not_mem_nil, or_false] at kinds
  rcases kinds with rfl | rfl | rfl | rfl <;> exact Iff.rfl

theorem endsBefore_withEqual : EndsBefore ⟨.token withEqual, text⟩ following := by
  have suits := Lead.suits_of_ofChar role
  have double : ∀ entry ∈ operators, entry.1.length = 2 →
      entry.2 ∈ [.bangEqual, .equalEqual, .lessEqual, .greaterEqual] := by decide
  have kinds := double ([sign, '='], withEqual) suits.2 rfl
  simp only [List.mem_cons, List.not_mem_nil, or_false] at kinds
  rcases kinds with rfl | rfl | rfl | rfl <;> trivial

end Operator

end Piece

/-! ## Numerals -/

theorem Numeral.split_cons {digit : Char} (test : isDigit digit = true) (rest : List Char) :
    Numeral.split (digit :: rest) = (digit :: (Numeral.split rest).1, (Numeral.split rest).2) := by
  simp only [Numeral.split, List.takeWhile_cons_of_pos test, List.dropWhile_cons_of_pos test]
  split
  · split <;> rfl
  · rfl

theorem Numeral.split_of_integer {digits following : List Char}
    (all : ∀ c ∈ digits, IsDigit c) (outside : StartsOutside isDigit following)
    (noFraction : startsFraction following = false) :
    Numeral.split (digits ++ following) = (digits, following) := by
  rw [Numeral.split, takeWhile_append_of_startsOutside (all_isDigit all) outside,
    dropWhile_append_of_startsOutside (all_isDigit all) outside]
  split
  · next digit rest =>
    simp only [startsFraction] at noFraction
    simp [noFraction]
  · rfl

theorem Numeral.split_of_decimal {whole fraction following : List Char}
    (wholeAll : ∀ c ∈ whole, IsDigit c) (nonempty : fraction ≠ [])
    (fractionAll : ∀ c ∈ fraction, IsDigit c) (outside : StartsOutside isDigit following) :
    Numeral.split (whole ++ '.' :: fraction ++ following) =
      (whole ++ '.' :: fraction, following) := by
  obtain ⟨digit, rest, rfl⟩ := List.exists_cons_of_ne_nil nonempty
  obtain ⟨digitTest, restAll⟩ := List.forall_mem_cons.mp (all_isDigit fractionAll)
  have point : StartsOutside isDigit ('.' :: digit :: (rest ++ following)) :=
    (startsOutside_cons _ _ _).mpr (by decide)
  rw [List.append_assoc, List.cons_append, List.cons_append, Numeral.split,
    takeWhile_append_of_startsOutside (all_isDigit wholeAll) point,
    dropWhile_append_of_startsOutside (all_isDigit wholeAll) point]
  simp [digitTest, takeWhile_append_of_startsOutside restAll outside,
    dropWhile_append_of_startsOutside restAll outside]

/-! ## Words -/

theorem TokenKind.ofWord_of_reserved {text : List Char} {word : Keyword}
    (reserved : (String.ofList text, word) ∈ reservedWords) : ofWord text = .keyword word :=
  ofWord_eq_keyword_iff.mpr (mem_reservedWords_iff.mp reserved)

theorem TokenKind.ofWord_of_unreserved {text : List Char}
    (unreserved : ∀ word, (String.ofList text, word) ∉ reservedWords) :
    ofWord text = .identifier := by
  rw [ofWord]
  cases found : Keyword.ofSpelling? text with
  | none => rfl
  | some word =>
      have spelled := Keyword.ofSpelling?_eq_some_iff.mp found
      exact absurd (mem_reservedWords_iff.mpr spelled) (unreserved word)

theorem lexeme_ofWord {first : Char} {rest : List Char} (letter : IsLetter first)
    (all : ∀ c ∈ rest, IsLetter c ∨ IsDigit c) :
    Lexeme (.token (TokenKind.ofWord (first :: rest))) (first :: rest) := by
  by_cases reserved : ∃ word, (String.ofList (first :: rest), word) ∈ reservedWords
  · obtain ⟨word, member⟩ := reserved
    rw [TokenKind.ofWord_of_reserved member]
    exact .keyword letter all member
  · have unreserved := not_exists.mp reserved
    rw [TokenKind.ofWord_of_unreserved unreserved]
    exact .identifier letter all unreserved

namespace Piece

private theorem firstWord_append {first : Char} {rest following : List Char}
    (all : ∀ c ∈ rest, IsLetter c ∨ IsDigit c) (outside : StartsOutside isWordChar following) :
    firstWord first (rest ++ following) =
      (⟨.token (TokenKind.ofWord (first :: rest)), first :: rest⟩, following) := by
  have tests : ∀ c ∈ rest, isWordChar c = true :=
    fun c member => isWordChar_iff.mpr (all c member)
  rw [firstWord, takeWhile_append_of_startsOutside tests outside,
    dropWhile_append_of_startsOutside tests outside]

private theorem firstOperator_alone {sign : Char} {alone withEqual : TokenKind}
    {following : List Char} (outside : StartsOutside (· == '=') following) :
    firstOperator sign alone withEqual following = (⟨.token alone, [sign]⟩, following) := by
  unfold firstOperator
  split
  · next after => exact absurd ((startsOutside_cons _ _ _).mp outside) (by decide)
  · rfl

private theorem firstSlash_alone {following : List Char}
    (outside : StartsOutside (· == '/') following) :
    firstSlash '/' following = (⟨.token .slash, ['/']⟩, following) := by
  unfold firstSlash
  split
  · next after => exact absurd ((startsOutside_cons _ _ _).mp outside) (by decide)
  · rfl

private theorem firstSlash_comment {body following : List Char} (inside : '\n' ∉ body)
    (outside : StartsOutside (· != '\n') following) :
    firstSlash '/' ('/' :: (body ++ following)) =
      (⟨.comment, '/' :: '/' :: body⟩, following) := by
  have all : ∀ c ∈ body, (c != '\n') = true := all_bne_of_not_mem inside
  simp [firstSlash, takeWhile_append_of_startsOutside all outside,
    dropWhile_append_of_startsOutside all outside]

theorem firstString_closed {body following : List Char} (inside : '"' ∉ body) :
    firstString '"' (body ++ '"' :: following) =
      (⟨.token .string, '"' :: (body ++ ['"'])⟩, following) := by
  have all : ∀ c ∈ body, (c != '"') = true := all_bne_of_not_mem inside
  have quote : StartsOutside (· != '"') ('"' :: following) :=
    (startsOutside_cons _ _ _).mpr (by decide)
  simp [firstString, takeWhile_append_of_startsOutside all quote,
    dropWhile_append_of_startsOutside all quote]

theorem firstString_open {body : List Char} (inside : '"' ∉ body) :
    firstString '"' body = (⟨.openString, '"' :: body⟩, []) := by
  have all : ∀ c ∈ body, (c != '"') = true := all_bne_of_not_mem inside
  have dropped := dropWhile_append_of_startsOutside all (startsOutside_nil (· != '"'))
  rw [List.append_nil] at dropped
  simp [firstString, dropped]

private theorem first_of_digit {digit : Char} {rest text : List Char}
    (test : isDigit digit = true) (shape : text = digit :: rest) :
    first digit rest = (⟨.token .number, (Numeral.split text).1⟩, (Numeral.split text).2) := by
  rw [first, Lead.ofChar_eq_digit_iff.mpr test, firstNumeral, shape]

private theorem isDigit_front {digits tail rest : List Char} {c : Char} (nonempty : digits ≠ [])
    (all : ∀ digit ∈ digits, IsDigit digit) (shape : digits ++ tail = c :: rest) :
    isDigit c = true := by
  obtain ⟨digit, others, rfl⟩ := List.exists_cons_of_ne_nil nonempty
  obtain ⟨rfl, _⟩ := List.cons.inj shape
  exact isDigit_iff.mpr (all digit List.mem_cons_self)

private theorem first_of_letter {letter : Char} {rest following : List Char}
    (isLetter : IsLetter letter) (all : ∀ c ∈ rest, IsLetter c ∨ IsDigit c)
    (outside : StartsOutside isWordChar following) :
    first letter (rest ++ following) =
      (⟨.token (TokenKind.ofWord (letter :: rest)), letter :: rest⟩, following) := by
  rw [first, Lead.ofChar_of_isLetter isLetter]
  exact firstWord_append all outside

/-- A word is read back from its own text, whatever follows, unless it goes on there. -/
theorem first_of_lexeme {kind : PieceKind} {text following rest : List Char} {c : Char}
    (lexeme : Lexeme kind text) (ends : EndsBefore ⟨kind, text⟩ following)
    (shape : text ++ following = c :: rest) :
    first c rest = (⟨kind, text⟩, following) := by
  cases lexeme with
  | mark member =>
      obtain ⟨rfl, rfl⟩ := List.cons.inj shape
      -- The slash is the one mark that may also lead a comment.
      rcases Lead.ofChar_of_mark member with role | ⟨rfl, rfl⟩
      · rw [first, role]
        rfl
      · exact firstSlash_alone ends
  | operator member =>
      rcases Lead.ofChar_of_operator member with ⟨sign, withEqual, rfl, role⟩ |
        ⟨sign, alone, rfl, role⟩
      · obtain ⟨rfl, rfl⟩ := List.cons.inj shape
        rw [first, role]
        exact firstOperator_alone ((endsBefore_alone role _ _).mp ends)
      · obtain ⟨rfl, rfl⟩ := List.cons.inj shape
        rw [first, role]
        rfl
  | integer nonempty all =>
      have noPoint : '.' ∉ text := fun member => (all '.' member).ne (by decide) rfl
      have noFraction : startsFraction following = false := ends.2.resolve_left noPoint
      rw [first_of_digit (isDigit_front nonempty all shape) shape,
        Numeral.split_of_integer all ends.1 noFraction]
  | @decimal whole fraction wholeNonempty wholeAll fractionNonempty fractionAll =>
      have front : whole ++ ('.' :: fraction ++ following) = c :: rest := by
        rw [← shape, List.append_assoc]
      rw [first_of_digit (isDigit_front wholeNonempty wholeAll front) shape,
        Numeral.split_of_decimal wholeAll fractionNonempty fractionAll ends.1]
  | keyword letter all reserved =>
      rw [List.cons_append] at shape
      obtain ⟨rfl, rfl⟩ := List.cons.inj shape
      rw [first_of_letter letter all ends, TokenKind.ofWord_of_reserved reserved]
  | identifier letter all unreserved =>
      rw [List.cons_append] at shape
      obtain ⟨rfl, rfl⟩ := List.cons.inj shape
      rw [first_of_letter letter all ends, TokenKind.ofWord_of_unreserved unreserved]
  | @string body inside =>
      rw [List.cons_append, List.append_assoc, List.singleton_append] at shape
      obtain ⟨rfl, rfl⟩ := List.cons.inj shape
      exact firstString_closed inside
  | @comment body inside =>
      obtain ⟨rfl, rfl⟩ := List.cons.inj shape
      exact firstSlash_comment inside ends
  | blank blank =>
      obtain ⟨rfl, rfl⟩ := List.cons.inj shape
      rcases blank with rfl | rfl | rfl | rfl <;> rfl

/-! ## The first piece of a text -/

private theorem startsOutside_eq_of_ne {stop : Char} {rest : List Char}
    (other : ∀ after, rest = stop :: after → False) : StartsOutside (· == stop) rest := by
  cases rest with
  | nil => exact startsOutside_nil _
  | cons next after =>
      refine (startsOutside_cons _ _ _).mpr (beq_eq_false_iff_ne.mpr ?_)
      intro same
      subst same
      exact other after rfl

private theorem firstOperator_boundary {sign : Char} {alone withEqual : TokenKind}
    (role : Lead.ofChar sign = .operator alone withEqual) (rest : List Char) :
    WellFormed (firstOperator sign alone withEqual rest).1 ∧
      EndsBefore (firstOperator sign alone withEqual rest).1
        (firstOperator sign alone withEqual rest).2 := by
  have suits := Lead.suits_of_ofChar role
  unfold firstOperator
  split
  · exact ⟨.lexeme (.operator suits.2), endsBefore_withEqual role _ _⟩
  · next other =>
    exact ⟨.lexeme (.operator suits.1),
      (endsBefore_alone role _ _).mpr (startsOutside_eq_of_ne other)⟩

private theorem firstSlash_boundary (rest : List Char) :
    WellFormed (firstSlash '/' rest).1 ∧
      EndsBefore (firstSlash '/' rest).1 (firstSlash '/' rest).2 := by
  unfold firstSlash
  split
  · next after =>
    refine ⟨.lexeme (.comment fun member => ?_), startsOutside_dropWhile _ _⟩
    exact absurd (List.mem_takeWhile_imp member) (by decide)
  · next other =>
    exact ⟨.lexeme (.mark (by decide)), startsOutside_eq_of_ne other⟩

private theorem firstString_boundary (rest : List Char) :
    WellFormed (firstString '"' rest).1 ∧
      EndsBefore (firstString '"' rest).1 (firstString '"' rest).2 := by
  have parts := List.takeWhile_append_dropWhile (p := (· != '"')) (l := rest)
  have inside : '"' ∉ rest.takeWhile (· != '"') :=
    fun member => absurd (List.mem_takeWhile_imp member) (by decide)
  have stopped := startsOutside_dropWhile (· != '"') rest
  unfold firstString
  split
  · next shape =>
    rw [shape, List.append_nil] at parts
    rw [parts] at inside
    exact ⟨.openString inside, rfl⟩
  · next closing after shape =>
    rw [shape, startsOutside_cons] at stopped
    obtain rfl : closing = '"' := by simpa using stopped
    exact ⟨.lexeme (.string inside), trivial⟩

private theorem firstNumeral_boundary {digit : Char} (test : isDigit digit = true)
    (rest : List Char) :
    WellFormed (firstNumeral digit rest).1 ∧
      EndsBefore (firstNumeral digit rest).1 (firstNumeral digit rest).2 := by
  have wholeNonempty : (digit :: rest).takeWhile isDigit ≠ [] := by simp [test]
  have wholeAll : ∀ c ∈ (digit :: rest).takeWhile isDigit, IsDigit c :=
    fun c member => isDigit_iff.mp (List.mem_takeWhile_imp member)
  have stopped := startsOutside_dropWhile isDigit (digit :: rest)
  rw [firstNumeral, Numeral.split]
  split
  · next next after shape =>
    split
    · next fraction =>
      have fractionAll : ∀ c ∈ next :: after.takeWhile isDigit, IsDigit c := by
        intro c member
        rcases List.mem_cons.mp member with rfl | member
        · exact isDigit_iff.mp fraction
        · exact isDigit_iff.mp (List.mem_takeWhile_imp member)
      exact ⟨.lexeme (.decimal wholeNonempty wholeAll (List.cons_ne_nil _ _) fractionAll),
        startsOutside_dropWhile _ _, .inl (by simp)⟩
    · next noFraction =>
      rw [shape] at stopped
      exact ⟨.lexeme (.integer wholeNonempty wholeAll), stopped, .inr (by
        simpa [startsFraction] using noFraction)⟩
  · next other =>
    refine ⟨.lexeme (.integer wholeNonempty wholeAll), stopped, .inr ?_⟩
    unfold startsFraction
    split
    · next next after shape => exact (other next after shape).elim
    · rfl

private theorem firstWord_boundary {letter : Char} (isLetter : IsLetter letter)
    (rest : List Char) :
    WellFormed (firstWord letter rest).1 ∧
      EndsBefore (firstWord letter rest).1 (firstWord letter rest).2 := by
  have all : ∀ c ∈ rest.takeWhile isWordChar, IsLetter c ∨ IsDigit c :=
    fun c member => isWordChar_iff.mp (List.mem_takeWhile_imp member)
  refine ⟨.lexeme (lexeme_ofWord isLetter all), ?_⟩
  have stopped := startsOutside_dropWhile isWordChar rest
  cases found : Keyword.ofSpelling? (letter :: rest.takeWhile isWordChar) with
  | none =>
      simp only [firstWord, TokenKind.ofWord, found]
      exact stopped
  | some word =>
      simp only [firstWord, TokenKind.ofWord, found]
      exact stopped

theorem first_boundary (c : Char) (rest : List Char) :
    WellFormed (first c rest).1 ∧ EndsBefore (first c rest).1 (first c rest).2 := by
  unfold first
  split
  · next kind role =>
    exact ⟨.lexeme (.mark (Lead.suits_of_ofChar role)), endsBefore_mark role _ rest⟩
  · next alone withEqual role => exact firstOperator_boundary role rest
  · next role =>
    obtain rfl : c = '/' := Lead.suits_of_ofChar role
    exact firstSlash_boundary rest
  · next role => exact ⟨.lexeme (.blank (Lead.suits_of_ofChar role)), trivial⟩
  · next role =>
    obtain rfl : c = '"' := Lead.suits_of_ofChar role
    exact firstString_boundary rest
  · next role => exact firstNumeral_boundary (Lead.ofChar_eq_digit_iff.mp role) rest
  · next role => exact firstWord_boundary (Lead.suits_of_ofChar role) rest
  · next role => exact ⟨.stray role, trivial⟩

theorem first_of_wellFormed {piece : Piece} {following rest : List Char} {c : Char}
    (formed : piece.WellFormed) (ends : piece.EndsBefore following)
    (shape : piece.text ++ following = c :: rest) : first c rest = (piece, following) := by
  cases formed with
  | lexeme lexeme => exact first_of_lexeme lexeme ends shape
  | stray role =>
      obtain ⟨rfl, rfl⟩ := List.cons.inj shape
      rw [first, role]
      rfl
  | @openString body inside =>
      obtain rfl : following = [] := ends
      rw [List.append_nil] at shape
      obtain ⟨rfl, rfl⟩ := List.cons.inj shape
      exact firstString_open inside

/-- The first piece of a text is the well-formed piece in front that ends where what remains
begins, and there is no other. -/
theorem first_eq_iff {c : Char} {rest following : List Char} {piece : Piece} :
    first c rest = (piece, following) ↔
      piece.WellFormed ∧ piece.EndsBefore following ∧ piece.text ++ following = c :: rest := by
  constructor
  · intro taken
    have boundary := first_boundary c rest
    rw [taken] at boundary
    exact ⟨boundary.1, boundary.2, append_of_first taken⟩
  · intro boundary
    obtain ⟨formed, ends, shape⟩ := boundary
    exact first_of_wellFormed formed ends shape

end Piece

end Lox

import Lox.Source.Piece

/-!
# Lexical grammar

The grammar of Lox as a relation between classes and texts. It says which texts are words of which
class and nothing about how a source is read; classes of characters are ranges here, not tests.
-/

set_option autoImplicit false

namespace Lox

def IsDigit (c : Char) : Prop :=
  '0' ≤ c ∧ c ≤ '9'

def IsLetter (c : Char) : Prop :=
  ('A' ≤ c ∧ c ≤ 'Z') ∨ ('a' ≤ c ∧ c ≤ 'z') ∨ c = '_'

def IsBlank (c : Char) : Prop :=
  c = ' ' ∨ c = '\t' ∨ c = '\r' ∨ c = '\n'

def marks : List (Char × TokenKind) :=
  [('(', .leftParen), (')', .rightParen), ('{', .leftBrace), ('}', .rightBrace), (',', .comma),
    ('.', .dot), ('-', .minus), ('+', .plus), (';', .semicolon), ('*', .star), ('/', .slash)]

def operators : List (List Char × TokenKind) :=
  [(['!'], .bang), (['!', '='], .bangEqual), (['='], .equal), (['=', '='], .equalEqual),
    (['<'], .less), (['<', '='], .lessEqual), (['>'], .greater), (['>', '='], .greaterEqual)]

def reservedWords : List (String × Keyword) :=
  [("and", .andWord), ("class", .classWord), ("else", .elseWord), ("false", .falseWord),
    ("for", .forWord), ("fun", .funWord), ("if", .ifWord), ("nil", .nilWord), ("or", .orWord),
    ("print", .printWord), ("return", .returnWord), ("super", .superWord), ("this", .thisWord),
    ("true", .trueWord), ("var", .varWord), ("while", .whileWord)]

/-- The words of each class. A stray character and an open string belong to no class. -/
inductive Lexeme : PieceKind → List Char → Prop where
  | mark {c : Char} {kind : TokenKind} :
      (c, kind) ∈ marks → Lexeme (.token kind) [c]
  | operator {text : List Char} {kind : TokenKind} :
      (text, kind) ∈ operators → Lexeme (.token kind) text
  | integer {digits : List Char} :
      digits ≠ [] → (∀ c ∈ digits, IsDigit c) → Lexeme (.token .number) digits
  | decimal {whole fraction : List Char} :
      whole ≠ [] → (∀ c ∈ whole, IsDigit c) →
      fraction ≠ [] → (∀ c ∈ fraction, IsDigit c) →
      Lexeme (.token .number) (whole ++ '.' :: fraction)
  | keyword {first : Char} {rest : List Char} {word : Keyword} :
      IsLetter first → (∀ c ∈ rest, IsLetter c ∨ IsDigit c) →
      (String.ofList (first :: rest), word) ∈ reservedWords →
      Lexeme (.token (.keyword word)) (first :: rest)
  | identifier {first : Char} {rest : List Char} :
      IsLetter first → (∀ c ∈ rest, IsLetter c ∨ IsDigit c) →
      (∀ word : Keyword, (String.ofList (first :: rest), word) ∉ reservedWords) →
      Lexeme (.token .identifier) (first :: rest)
  | string {body : List Char} :
      '"' ∉ body → Lexeme (.token .string) ('"' :: (body ++ ['"']))
  | comment {body : List Char} :
      '\n' ∉ body → Lexeme .comment ('/' :: '/' :: body)
  | blank {c : Char} :
      IsBlank c → Lexeme .space [c]

/-- No class has the empty word, so reading a word always makes progress. -/
theorem Lexeme.ne_nil {kind : PieceKind} {text : List Char} (lexeme : Lexeme kind text) :
    text ≠ [] := by
  cases lexeme with
  | mark => exact List.cons_ne_nil _ _
  | operator member =>
      intro empty
      subst empty
      simp [operators] at member
  | integer nonempty _ => exact nonempty
  | decimal _ _ _ _ => simp
  | keyword => exact List.cons_ne_nil _ _
  | identifier => exact List.cons_ne_nil _ _
  | string => exact List.cons_ne_nil _ _
  | comment => exact List.cons_ne_nil _ _
  | blank => exact List.cons_ne_nil _ _

theorem Lexeme.exists_body {text : List Char} (lexeme : Lexeme (.token .string) text) :
    ∃ body, '"' ∉ body ∧ text = '"' :: (body ++ ['"']) := by
  cases lexeme with
  | mark member => simp [marks] at member
  | operator member => simp [operators] at member
  | string inside => exact ⟨_, inside, rfl⟩

theorem mem_reservedWords_iff {text : List Char} {word : Keyword} :
    (String.ofList text, word) ∈ reservedWords ↔ word.spelling = text := by
  constructor
  · intro member
    have spelled : ∀ entry ∈ reservedWords, entry.2.spelling = entry.1.toList := by decide
    have same := spelled (String.ofList text, word) member
    rwa [String.toList_ofList] at same
  · intro spelled
    subst spelled
    cases word <;> decide

/-! ## Classes of characters as tests -/

theorem isDigit_iff {c : Char} : isDigit c = true ↔ IsDigit c := by
  change (decide ('0' ≤ c) && decide (c ≤ '9')) = true ↔ IsDigit c
  simp only [IsDigit, Bool.and_eq_true, decide_eq_true_eq]

theorem all_isDigit {digits : List Char} (all : ∀ c ∈ digits, IsDigit c) :
    ∀ c ∈ digits, isDigit c = true :=
  fun c member => isDigit_iff.mpr (all c member)

theorem isLetter_iff {c : Char} : isLetter c = true ↔ IsLetter c := by
  change (decide ('A' ≤ c ∧ c ≤ 'Z') || decide ('a' ≤ c) && decide (c ≤ 'z') || c == '_') = true ↔
    IsLetter c
  simp only [IsLetter, Bool.and_eq_true, Bool.or_eq_true, decide_eq_true_eq, beq_iff_eq, or_assoc]

theorem isBlank_iff {c : Char} : isBlank c = true ↔ IsBlank c := by
  simp only [isBlank, IsBlank, Bool.or_eq_true, beq_iff_eq, or_assoc]

theorem isWordChar_iff {c : Char} : isWordChar c = true ↔ IsLetter c ∨ IsDigit c := by
  rw [isWordChar, Bool.or_eq_true, isLetter_iff, isDigit_iff]

theorem IsLetter.not_digit {c : Char} (letter : IsLetter c) : ¬ IsDigit c := by
  intro digit
  obtain ⟨_, atMost⟩ := digit
  rcases letter with ⟨atLeast, _⟩ | ⟨atLeast, _⟩ | rfl
  · exact absurd (Char.le_trans atLeast atMost) (by decide)
  · exact absurd (Char.le_trans atLeast atMost) (by decide)
  · exact absurd atMost (by decide)

theorem IsDigit.ne {c other : Char} (digit : IsDigit c) (outside : isDigit other = false) :
    c ≠ other := by
  rintro rfl
  rw [isDigit_iff.mpr digit] at outside
  cases outside

theorem IsLetter.ne {c other : Char} (letter : IsLetter c) (outside : isLetter other = false) :
    c ≠ other := by
  rintro rfl
  rw [isLetter_iff.mpr letter] at outside
  cases outside

theorem IsBlank.not_letter {c : Char} (blank : IsBlank c) : isLetter c = false := by
  rcases blank with rfl | rfl | rfl | rfl <;> decide

/-! ## Classes of leading characters -/

def Lead.Suits : Lead → Char → Prop
  | .mark kind, c => (c, kind) ∈ marks
  | .operator alone withEqual, c =>
      ([c], alone) ∈ operators ∧ ([c, '='], withEqual) ∈ operators
  | .slash, c => c = '/'
  | .blank, c => IsBlank c
  | .quote, c => c = '"'
  | .digit, c => IsDigit c
  | .letter, c => IsLetter c
  | .stray, _ => True

theorem Lead.suits_ofChar (c : Char) : (Lead.ofChar c).Suits c := by
  unfold Lead.ofChar
  split
  case h_17 =>
    split
    · next blank => exact isBlank_iff.mp blank
    · split
      · next digit => exact isDigit_iff.mp digit
      · split
        · next letter => exact isLetter_iff.mp letter
        · exact trivial
  all_goals simp [Lead.Suits, marks, operators]

theorem Lead.suits_of_ofChar {c : Char} {lead : Lead} (role : Lead.ofChar c = lead) :
    lead.Suits c := by
  rw [← role]
  exact Lead.suits_ofChar c

theorem Lead.ofChar_of_isLetter {c : Char} (letter : IsLetter c) : Lead.ofChar c = .letter := by
  have test : isLetter c = true := isLetter_iff.mpr letter
  unfold Lead.ofChar
  split
  case h_17 =>
    have notBlank : isBlank c = false := by
      cases blank : isBlank c with
      | false => rfl
      | true => exact absurd test (by simp [(isBlank_iff.mp blank).not_letter])
    have notDigit : isDigit c = false := by
      cases digit : isDigit c with
      | false => rfl
      | true => exact absurd (isDigit_iff.mp digit) letter.not_digit
    simp [notBlank, notDigit, test]
  all_goals exact absurd test (by decide)

theorem Lead.ofChar_of_mark {c : Char} {kind : TokenKind} (member : (c, kind) ∈ marks) :
    Lead.ofChar c = .mark kind ∨ (c = '/' ∧ kind = .slash) := by
  have all : ∀ entry ∈ marks,
      Lead.ofChar entry.1 = .mark entry.2 ∨ (entry.1 = '/' ∧ entry.2 = .slash) := by decide
  exact all (c, kind) member

theorem Lead.ofChar_of_operator {text : List Char} {kind : TokenKind}
    (member : (text, kind) ∈ operators) :
    (∃ sign withEqual, text = [sign] ∧ Lead.ofChar sign = .operator kind withEqual) ∨
      ∃ sign alone, text = [sign, '='] ∧ Lead.ofChar sign = .operator alone kind := by
  simp only [operators, List.mem_cons, List.not_mem_nil, or_false, Prod.mk.injEq] at member
  rcases member with ⟨rfl, rfl⟩ | ⟨rfl, rfl⟩ | ⟨rfl, rfl⟩ | ⟨rfl, rfl⟩ | ⟨rfl, rfl⟩ | ⟨rfl, rfl⟩ |
    ⟨rfl, rfl⟩ | ⟨rfl, rfl⟩
  all_goals first | exact .inl ⟨_, _, rfl, rfl⟩ | exact .inr ⟨_, _, rfl, rfl⟩

theorem Lead.ne_of_stray {c : Char} (role : Lead.ofChar c = .stray) : c ≠ '"' ∧ c ≠ '\n' := by
  constructor
  · intro quote
    subst quote
    exact absurd role (by decide)
  · intro feed
    subst feed
    exact absurd role (by decide)

end Lox

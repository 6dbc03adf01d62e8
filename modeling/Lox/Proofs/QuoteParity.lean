import Lox.Proofs.OpenString

/-!
# Quotes by number

Outside of comments quotes come in pairs, but for the one that opens a string and is never matched.
Counting the quotes of a text therefore tells whether it ends inside a string only up to those that
stand in comments.
-/

set_option autoImplicit false

namespace Lox

def commentQuotes (text : List Char) : Nat :=
  (((pieces text).filter (·.kind == .comment)).flatMap Piece.text).count '"'

@[simp] theorem commentQuotes_nil : commentQuotes [] = 0 := by
  simp [commentQuotes]

theorem commentQuotes_cons {c : Char} {rest following : List Char} {piece : Piece}
    (taken : Piece.first c rest = (piece, following)) :
    commentQuotes (c :: rest) =
      (if piece.kind = .comment then piece.text.count '"' else 0) + commentQuotes following := by
  rw [commentQuotes, pieces_cons, taken]
  by_cases comment : piece.kind = .comment
  · simp [comment, commentQuotes]
  · simp [comment, commentQuotes]

/-! ## Quotes in one piece -/

private theorem IsDigit.ne_quote {c : Char} (digit : IsDigit c) : c ≠ '"' :=
  digit.ne (by decide)

private theorem IsLetter.ne_quote {c : Char} (letter : IsLetter c) : c ≠ '"' :=
  letter.ne (by decide)

private theorem count_quote_of_all {Holds : Char → Prop} {text : List Char}
    (all : ∀ c ∈ text, Holds c) (notQuote : ∀ c, Holds c → c ≠ '"') : text.count '"' = 0 :=
  List.count_eq_zero.mpr fun member => notQuote '"' (all '"' member) rfl

private theorem word_count_quote {first : Char} {rest : List Char} (letter : IsLetter first)
    (all : ∀ c ∈ rest, IsLetter c ∨ IsDigit c) : (first :: rest).count '"' = 0 := by
  have restCount := count_quote_of_all all
    (fun _ inside => inside.elim IsLetter.ne_quote IsDigit.ne_quote)
  rw [List.count_cons_of_ne letter.ne_quote, restCount]

/-- The quotes of a word outside of comments pair up. -/
theorem Lexeme.count_quote_even {kind : PieceKind} {text : List Char} (lexeme : Lexeme kind text)
    (notComment : kind ≠ .comment) : text.count '"' % 2 = 0 := by
  cases lexeme with
  | @mark c kind member =>
      have absent : ∀ entry ∈ marks, entry.1 ≠ '"' := by decide
      rw [List.count_cons_of_ne (absent (c, kind) member)]
      rfl
  | @operator _ kind member =>
      have absent : ∀ entry ∈ operators, entry.1.count '"' = 0 := by decide
      rw [absent (text, kind) member]
  | integer _ all => rw [count_quote_of_all all (fun _ => IsDigit.ne_quote)]
  | decimal _ wholeAll _ fractionAll =>
      rw [List.count_append, count_quote_of_all wholeAll (fun _ => IsDigit.ne_quote),
        List.count_cons_of_ne (by decide),
        count_quote_of_all fractionAll (fun _ => IsDigit.ne_quote)]
  | keyword letter all _ => rw [word_count_quote letter all]
  | identifier letter all _ => rw [word_count_quote letter all]
  | string inside =>
      rw [List.count_cons_self, List.count_append, List.count_eq_zero.mpr inside]
      decide
  | comment _ => exact absurd rfl notComment
  | blank blank => rcases blank with rfl | rfl | rfl | rfl <;> decide

private theorem Piece.count_quote {piece : Piece} (formed : piece.WellFormed) :
    piece.text.count '"' % 2 =
      ((if piece.kind = .comment then piece.text.count '"' else 0) +
        (piece.kind == .openString).toNat) % 2 := by
  cases formed with
  | @lexeme kind text lexeme =>
      by_cases comment : kind = .comment
      · subst comment
        rfl
      · have notOpen : (kind == .openString) = false := by
          cases lexeme <;> rfl
        simp [comment, notOpen, lexeme.count_quote_even comment]
  | stray role =>
      rw [List.count_cons_of_ne (Lead.ne_of_stray role).1]
      rfl
  | openString inside => simp [List.count_eq_zero.mpr inside]

/-! ## Quotes in a text -/

theorem count_quote_mod_two (text : List Char) :
    text.count '"' % 2 = (commentQuotes text + (endsInString text).toNat) % 2 := by
  induction text using pieces_induction with
  | nil => simp
  | cons c rest piece following taken ih =>
      obtain ⟨formed, ends, parts⟩ := Piece.first_eq_iff.mp taken
      have pieceQuotes := Piece.count_quote formed
      rw [commentQuotes_cons taken, endsInString_cons taken, ← parts, List.count_append]
      by_cases isOpen : piece.kind = .openString
      · have last : following = [] := by simpa [Piece.EndsBefore, isOpen] using ends
        subst last
        simpa [isOpen] using pieceQuotes
      · have notOpen : (piece.kind == .openString) = false := by simpa using isOpen
        rw [notOpen] at pieceQuotes ⊢
        simp only [Bool.toNat_false, Nat.add_zero] at pieceQuotes
        rw [Bool.false_or]
        omega

end Lox

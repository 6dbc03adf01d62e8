import Lox.Proofs.ByteSlices
import Lox.Proofs.ScannerSteps

/-!
# The cursor of a scanner

What keeps the two positions of a scanner in step: its source is always cut in three, into what lies
behind the lexeme, the lexeme so far and the characters that are still to come. Every change of the
state keeps such a cut, and all that is asked of the cursor can be read off it.
-/

set_option autoImplicit false

namespace Lox.Scanner

def Reachable (source : String) (scanner : Scanner) : Prop :=
  Steps (new source) scanner

/-- What is asked of the cursor: both offsets lie in the source, in order and between characters,
the characters to come are the source behind the offset, and each way of looking ahead sees them. -/
structure Sound (source : String) (scanner : Scanner) : Prop where
  source_eq : scanner.source = source
  lexemeStart_le : scanner.lexemeStart ≤ scanner.current
  current_le : scanner.current ≤ source.utf8ByteSize
  lexemeStart_isValid : String.Pos.Raw.IsValid source ⟨scanner.lexemeStart⟩
  current_isValid : String.Pos.Raw.IsValid source ⟨scanner.current⟩
  rest_eq : slice? source scanner.current source.utf8ByteSize =
    some (String.ofList scanner.upcoming)
  peekOne_eq : scanner.peekOne = scanner.upcoming[0]?
  peekTwo?_eq : scanner.peekTwo? = some scanner.upcoming[1]?
  isAtEnd_iff : scanner.isAtEnd = true ↔ scanner.upcoming = []
  currentLexeme?_isSome : scanner.currentLexeme?.isSome = true

/-- The source is cut into what lies behind the lexeme, the lexeme so far and what is to come. -/
structure Cut (source : String) (scanner : Scanner) (behind lexeme : List Char) : Prop where
  source_eq : scanner.source = source
  parts : source.toList = behind ++ lexeme ++ scanner.upcoming
  lexemeStart_eq : scanner.lexemeStart = byteLength behind
  current_eq : scanner.current = byteLength (behind ++ lexeme)

theorem cut_new (source : String) : (new source).Cut source [] [] where
  source_eq := rfl
  parts := rfl
  lexemeStart_eq := byteLength_nil.symm
  current_eq := byteLength_nil.symm

namespace Cut

variable {source : String} {scanner next : Scanner} {behind lexeme : List Char}

/-! ## What a cut shows -/

section Shows

variable (cut : scanner.Cut source behind lexeme)

include cut

theorem currentLexeme?_eq : scanner.currentLexeme? = some (String.ofList lexeme) := by
  rw [currentLexeme?, cut.source_eq, cut.lexemeStart_eq, cut.current_eq]
  exact slice?_of_parts cut.parts

theorem rest_eq : slice? source scanner.current source.utf8ByteSize =
    some (String.ofList scanner.upcoming) := by
  rw [cut.current_eq]
  exact slice?_rest cut.parts

theorem peekTwo?_eq : scanner.peekTwo? = some scanner.upcoming[1]? := by
  rw [peekTwo?, cut.source_eq, cut.rest_eq, Option.map_some, String.toList_ofList]

theorem size_eq : source.utf8ByteSize = scanner.current + byteLength scanner.upcoming := by
  rw [cut.current_eq, ← byteLength_append, ← cut.parts, byteLength, String.ofList_toList]

/-- The end is reached when nothing is to come: no character is without bytes. -/
theorem isAtEnd_iff : scanner.isAtEnd = true ↔ scanner.upcoming = [] := by
  rw [isAtEnd, cut.source_eq, decide_eq_true_eq, cut.size_eq, ← byteLength_eq_zero_iff]
  omega

theorem sound : scanner.Sound source where
  source_eq := cut.source_eq
  lexemeStart_le := by
    rw [cut.lexemeStart_eq, cut.current_eq, byteLength_append]
    exact Nat.le_add_right _ _
  current_le := by
    rw [cut.size_eq]
    exact Nat.le_add_right _ _
  lexemeStart_isValid := by
    rw [cut.lexemeStart_eq]
    exact isValid_byteLength (by rw [cut.parts, List.append_assoc])
  current_isValid := by
    rw [cut.current_eq]
    exact isValid_byteLength cut.parts
  rest_eq := cut.rest_eq
  peekOne_eq := List.head?_eq_getElem?
  peekTwo?_eq := cut.peekTwo?_eq
  isAtEnd_iff := cut.isAtEnd_iff
  currentLexeme?_isSome := by
    rw [cut.currentLexeme?_eq]
    rfl

end Shows

/-! ## What keeps a cut -/

theorem startLexeme (cut : scanner.Cut source behind lexeme) :
    scanner.startLexeme.Cut source (behind ++ lexeme) [] where
  source_eq := cut.source_eq
  parts := by
    rw [cut.parts, List.append_nil]
    rfl
  lexemeStart_eq := cut.current_eq
  current_eq := by
    rw [List.append_nil]
    exact cut.current_eq

theorem advance (cut : scanner.Cut source behind lexeme) {c : Char} {rest : List Char}
    (shape : scanner.upcoming = c :: rest) :
    scanner.advance.2.Cut source behind (lexeme ++ [c]) := by
  rw [Scanner.advance, shape]
  exact
    { source_eq := cut.source_eq
      parts := by simp [cut.parts, shape]
      lexemeStart_eq := cut.lexemeStart_eq
      current_eq := by simp [cut.current_eq, Nat.add_assoc] }

theorem congr (cut : scanner.Cut source behind lexeme) (source_eq : next.source = scanner.source)
    (upcoming_eq : next.upcoming = scanner.upcoming)
    (lexemeStart_eq : next.lexemeStart = scanner.lexemeStart)
    (current_eq : next.current = scanner.current) : next.Cut source behind lexeme where
  source_eq := source_eq.trans cut.source_eq
  parts := upcoming_eq ▸ cut.parts
  lexemeStart_eq := lexemeStart_eq.trans cut.lexemeStart_eq
  current_eq := current_eq.trans cut.current_eq

theorem countFeed (cut : scanner.Cut source behind lexeme) (c : Char) :
    (scanner.countFeed c).Cut source behind lexeme := by
  rw [Scanner.countFeed]
  split
  · exact cut.congr rfl rfl rfl rfl
  · exact cut

theorem addTokenWithLiteral_eq (cut : scanner.Cut source behind lexeme) (kind : TokenKind)
    (literal : Option Literal) :
    scanner.addTokenWithLiteral kind literal = some
      { scanner with
        tokens := scanner.tokens ++ [⟨⟨kind, String.ofList lexeme, scanner.line⟩, literal⟩]
        events := scanner.events ++ [.token ⟨kind, String.ofList lexeme, scanner.line⟩] } := by
  rw [addTokenWithLiteral, cut.currentLexeme?_eq]
  rfl

theorem step (cut : scanner.Cut source behind lexeme) (change : Step scanner next) :
    ∃ behind lexeme, next.Cut source behind lexeme := by
  cases change with
  | startLexeme => exact ⟨_, _, cut.startLexeme⟩
  | advance =>
      cases shape : scanner.upcoming with
      | nil =>
          rw [Scanner.advance, shape]
          exact ⟨_, _, cut⟩
      | cons c rest => exact ⟨_, _, cut.advance shape⟩
  | countFeed c => exact ⟨_, _, cut.countFeed c⟩
  | addToken added =>
      cases (cut.addTokenWithLiteral_eq _ _).symm.trans added
      exact ⟨_, _, cut.congr rfl rfl rfl rfl⟩
  | addError => exact ⟨_, _, cut.congr rfl rfl rfl rfl⟩

theorem steps (cut : scanner.Cut source behind lexeme) (changes : Steps scanner next) :
    ∃ behind lexeme, next.Cut source behind lexeme := by
  induction changes with
  | refl => exact ⟨_, _, cut⟩
  | tail _ change ih =>
      obtain ⟨_, _, between⟩ := ih
      exact between.step change

end Cut

theorem Reachable.exists_cut {source : String} {scanner : Scanner}
    (reachable : Reachable source scanner) : ∃ behind lexeme, scanner.Cut source behind lexeme :=
  (cut_new source).steps reachable

end Lox.Scanner

import Lox.Proofs.PieceBoundary

/-!
# Joining texts

The pieces of a text stay what they are when more text is put behind it, provided the last of them
ends there and no digit follows.
-/

set_option autoImplicit false

namespace Lox

theorem Piece.endsBefore_nil (piece : Piece) : piece.EndsBefore [] := by
  obtain ⟨kind, text⟩ := piece
  cases kind with
  | token kind =>
      cases kind
      case number => exact ⟨startsOutside_nil _, .inr rfl⟩
      all_goals first | exact startsOutside_nil _ | exact trivial
  | space => exact trivial
  | comment => exact startsOutside_nil _
  | stray => exact trivial
  | openString => rfl

/-- The next character, and whether it begins a fraction, is all that a piece can depend on. -/
theorem Piece.EndsBefore.congr {piece : Piece} {left right : List Char}
    (ends : piece.EndsBefore left) (head : left.head? = right.head?)
    (fraction : startsFraction left = startsFraction right) : piece.EndsBefore right := by
  have outside : ∀ inside, StartsOutside inside left ↔ StartsOutside inside right := by
    intro inside
    rw [StartsOutside, StartsOutside, head]
  have empty : left = [] ↔ right = [] := by
    rw [← List.head?_eq_none_iff, ← List.head?_eq_none_iff, head]
  simpa only [EndsBefore, outside, fraction, empty] using ends

theorem startsFraction_cons (c : Char) (rest : List Char) :
    startsFraction (c :: rest) = (c == '.' && rest.head?.any isDigit) := by
  by_cases point : c = '.'
  · subst point
    cases rest with
    | nil => rfl
    | cons second rest => simp [startsFraction]
  · simp [startsFraction, point]

theorem Piece.EndsBefore.congr_cons {piece : Piece} {c : Char} {left right : List Char}
    (ends : piece.EndsBefore (c :: left)) (head : left.head? = right.head?) :
    piece.EndsBefore (c :: right) := by
  have fraction : startsFraction (c :: left) = startsFraction (c :: right) := by
    rw [startsFraction_cons, startsFraction_cons, head]
  exact ends.congr rfl fraction

private theorem startsFraction_append {following after : List Char} (nonempty : following ≠ [])
    (noDigit : StartsOutside isDigit after) :
    startsFraction (following ++ after) = startsFraction following := by
  obtain ⟨next, rest, rfl⟩ := List.exists_cons_of_ne_nil nonempty
  rw [List.cons_append, startsFraction_cons, startsFraction_cons]
  cases rest with
  | cons second rest => rfl
  | nil =>
      cases after with
      | nil => rfl
      | cons second rest => simp [(startsOutside_cons _ _ _).mp noDigit]

theorem Piece.first_append_after {c : Char} {rest following after : List Char} {piece : Piece}
    (taken : first c rest = (piece, following)) (noDigit : StartsOutside isDigit after)
    (last : following = [] → piece.EndsBefore after) :
    first c (rest ++ after) = (piece, following ++ after) := by
  obtain ⟨formed, ends, parts⟩ := first_eq_iff.mp taken
  refine first_eq_iff.mpr ⟨formed, ?_, ?_⟩
  -- Only the last piece sees the added text, but for the digits before a point at the very end.
  · by_cases empty : following = []
    · rw [empty]
      exact last empty
    · refine ends.congr ?_ (startsFraction_append empty noDigit).symm
      obtain ⟨next, others, rfl⟩ := List.exists_cons_of_ne_nil empty
      rfl
  · rw [← List.append_assoc, parts, List.cons_append]

theorem pieces_append {before after : List Char} (noDigit : StartsOutside isDigit after)
    (ends : ∀ piece ∈ (pieces before).getLast?, piece.EndsBefore after) :
    pieces (before ++ after) = pieces before ++ pieces after := by
  induction before using pieces_induction with
  | nil => rw [pieces_nil, List.nil_append, List.nil_append]
  | cons c rest piece following taken ih =>
      have shorter : pieces (c :: rest) = piece :: pieces following := by
        rw [pieces_cons, taken]
      have longer : Piece.first c (rest ++ after) = (piece, following ++ after) := by
        refine Piece.first_append_after taken noDigit fun empty => ends piece ?_
        rw [shorter, empty, pieces_nil]
        rfl
      rw [List.cons_append, pieces_cons, longer, shorter, List.cons_append, ih]
      intro last member
      refine ends last ?_
      rw [shorter, List.getLast?_cons, Option.mem_def.mp member]
      rfl

/-! ## Characters that end a token -/

/-- Blanks and quotes extend no token. -/
theorem Piece.endsBefore_of_separator {piece : Piece} {c : Char}
    (separator : isBlank c = true ∨ c = '"') (rest : List Char)
    (notComment : piece.kind ≠ .comment) (notOpen : piece.kind ≠ .openString) :
    piece.EndsBefore (c :: rest) := by
  have outside : isWordChar c = false ∧ c ≠ '=' ∧ c ≠ '/' ∧ c ≠ '.' := by
    rcases separator with blank | rfl
    · rcases isBlank_iff.mp blank with rfl | rfl | rfl | rfl <;> decide
    · decide
  obtain ⟨notWord, notEqual, notSlash, notPoint⟩ := outside
  obtain ⟨kind, text⟩ := piece
  cases kind with
  | openString => exact absurd rfl notOpen
  | comment => exact absurd rfl notComment
  | space => exact trivial
  | stray => exact trivial
  | token kind =>
      cases kind
      case bang | equal | less | greater =>
        exact (startsOutside_cons _ _ _).mpr (beq_eq_false_iff_ne.mpr notEqual)
      case slash => exact (startsOutside_cons _ _ _).mpr (beq_eq_false_iff_ne.mpr notSlash)
      case keyword | identifier => exact (startsOutside_cons _ _ _).mpr notWord
      case number =>
        have notDigit : isDigit c = false := (Bool.or_eq_false_iff.mp notWord).2
        exact ⟨(startsOutside_cons _ _ _).mpr notDigit, .inr (by simp [startsFraction, notPoint])⟩
      all_goals exact trivial

end Lox

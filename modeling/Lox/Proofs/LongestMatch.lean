import Lox.Proofs.PieceBoundary

/-!
# Longest match

A word that does not end before the rest of its text is the front of a longer word. Hence the first
piece of a text is the longest word at its front, whenever any word begins there.
-/

set_option autoImplicit false

namespace Lox

/-! ## Growing words -/

private theorem exists_cons_of_not_startsOutside {inside : Char → Bool} {following : List Char}
    (goesOn : ¬ StartsOutside inside following) :
    ∃ next rest, following = next :: rest ∧ inside next = true := by
  cases following with
  | nil => exact absurd (startsOutside_nil inside) goesOn
  | cons next rest =>
      refine ⟨next, rest, rfl, ?_⟩
      rw [startsOutside_cons] at goesOn
      exact eq_true_of_ne_false goesOn

private theorem exists_fraction {following : List Char}
    (fraction : startsFraction following = true) :
    ∃ digit rest, following = '.' :: digit :: rest ∧ isDigit digit = true := by
  unfold startsFraction at fraction
  split at fraction
  · next digit rest => exact ⟨digit, rest, rfl, fraction⟩
  · cases fraction

private theorem all_append_singleton {Holds : Char → Prop} {run : List Char} {last : Char}
    (all : ∀ c ∈ run, Holds c) (lastHolds : Holds last) : ∀ c ∈ run ++ [last], Holds c := by
  intro c member
  rcases List.mem_append.mp member with before | same
  · exact all c before
  · exact List.mem_singleton.mp same ▸ lastHolds

def Lexeme.Grows (text following : List Char) : Prop :=
  ∃ kind more rest, more ≠ [] ∧ following = more ++ rest ∧ Lexeme kind (text ++ more)

private theorem Lexeme.grows_of_next {kind : PieceKind} {text rest : List Char} {next : Char}
    (longer : Lexeme kind (text ++ [next])) : Grows text (next :: rest) :=
  ⟨kind, [next], rest, List.cons_ne_nil _ _, rfl, longer⟩

private theorem Lexeme.mark_grows {c : Char} {kind : TokenKind} {following : List Char}
    (member : (c, kind) ∈ marks)
    (goesOn : ¬ Piece.EndsBefore ⟨.token kind, [c]⟩ following) : Grows [c] following := by
  rcases Lead.ofChar_of_mark member with role | ⟨rfl, rfl⟩
  · exact absurd (Piece.endsBefore_mark role _ _) goesOn
  · obtain ⟨next, rest, rfl, slash⟩ := exists_cons_of_not_startsOutside goesOn
    obtain rfl : next = '/' := beq_iff_eq.mp slash
    exact grows_of_next (.comment (List.not_mem_nil))

private theorem Lexeme.operator_grows {text following : List Char} {kind : TokenKind}
    (member : (text, kind) ∈ operators)
    (goesOn : ¬ Piece.EndsBefore ⟨.token kind, text⟩ following) : Grows text following := by
  rcases Lead.ofChar_of_operator member with ⟨sign, withEqual, rfl, role⟩ |
    ⟨sign, alone, rfl, role⟩
  · rw [Piece.endsBefore_alone role] at goesOn
    obtain ⟨next, rest, rfl, equals⟩ := exists_cons_of_not_startsOutside goesOn
    obtain rfl : next = '=' := beq_iff_eq.mp equals
    exact grows_of_next (.operator (Lead.suits_of_ofChar role).2)
  · exact absurd (Piece.endsBefore_withEqual role _ _) goesOn

private theorem Lexeme.integer_grows {digits following : List Char} (nonempty : digits ≠ [])
    (all : ∀ c ∈ digits, IsDigit c)
    (goesOn : ¬ Piece.EndsBefore ⟨.token .number, digits⟩ following) :
    Grows digits following := by
  by_cases outside : StartsOutside isDigit following
  · have fraction : startsFraction following = true := by
      cases test : startsFraction following with
      | true => rfl
      | false => exact absurd ⟨outside, .inr test⟩ goesOn
    obtain ⟨digit, rest, rfl, isDigit⟩ := exists_fraction fraction
    have single : ∀ c ∈ [digit], IsDigit c :=
      fun c member => List.mem_singleton.mp member ▸ isDigit_iff.mp isDigit
    exact ⟨_, ['.', digit], rest, List.cons_ne_nil _ _, rfl,
      .decimal nonempty all (List.cons_ne_nil _ _) single⟩
  · obtain ⟨next, rest, rfl, digit⟩ := exists_cons_of_not_startsOutside outside
    exact grows_of_next (.integer (by simp) (all_append_singleton all (isDigit_iff.mp digit)))

private theorem Lexeme.decimal_grows {whole fraction following : List Char}
    (wholeNonempty : whole ≠ []) (wholeAll : ∀ c ∈ whole, IsDigit c)
    (fractionAll : ∀ c ∈ fraction, IsDigit c)
    (goesOn : ¬ Piece.EndsBefore ⟨.token .number, whole ++ '.' :: fraction⟩ following) :
    Grows (whole ++ '.' :: fraction) following := by
  have inside : ¬ StartsOutside isDigit following :=
    fun outside => goesOn ⟨outside, .inl (by simp)⟩
  obtain ⟨next, rest, rfl, digit⟩ := exists_cons_of_not_startsOutside inside
  have longer : Lexeme (.token .number) (whole ++ '.' :: (fraction ++ [next])) :=
    .decimal wholeNonempty wholeAll (by simp)
      (all_append_singleton fractionAll (isDigit_iff.mp digit))
  exact grows_of_next (by simpa using longer)

private theorem Lexeme.word_grows {first : Char} {rest following : List Char}
    (letter : IsLetter first) (all : ∀ c ∈ rest, IsLetter c ∨ IsDigit c)
    (goesOn : ¬ StartsOutside isWordChar following) : Grows (first :: rest) following := by
  obtain ⟨next, after, rfl, inside⟩ := exists_cons_of_not_startsOutside goesOn
  exact grows_of_next
    (lexeme_ofWord letter (all_append_singleton all (isWordChar_iff.mp inside)))

private theorem Lexeme.comment_grows {body following : List Char} (inside : '\n' ∉ body)
    (goesOn : ¬ StartsOutside (· != '\n') following) : Grows ('/' :: '/' :: body) following := by
  obtain ⟨next, rest, rfl, other⟩ := exists_cons_of_not_startsOutside goesOn
  have longer : '\n' ∉ body ++ [next] := by
    intro member
    rcases List.mem_append.mp member with before | same
    · exact inside before
    · exact bne_iff_ne.mp other (List.mem_singleton.mp same).symm
  exact grows_of_next (.comment longer)

/-- A word that does not end before what follows is the front of a longer word. -/
theorem Lexeme.grows {kind : PieceKind} {text following : List Char} (lexeme : Lexeme kind text)
    (goesOn : ¬ Piece.EndsBefore ⟨kind, text⟩ following) : Grows text following := by
  cases lexeme with
  | mark member => exact mark_grows member goesOn
  | operator member => exact operator_grows member goesOn
  | integer nonempty all => exact integer_grows nonempty all goesOn
  | decimal wholeNonempty wholeAll _ fractionAll =>
      exact decimal_grows wholeNonempty wholeAll fractionAll goesOn
  | keyword letter all _ => exact word_grows letter all goesOn
  | identifier letter all _ => exact word_grows letter all goesOn
  | string _ => exact absurd trivial goesOn
  | comment inside => exact comment_grows inside goesOn
  | blank _ => exact absurd trivial goesOn

theorem Lexeme.exists_ended {kind : PieceKind} {text : List Char} (lexeme : Lexeme kind text)
    (following : List Char) :
    ∃ endedKind ended rest, Lexeme endedKind ended ∧ Piece.EndsBefore ⟨endedKind, ended⟩ rest ∧
      ended ++ rest = text ++ following ∧ text.length ≤ ended.length := by
  by_cases ends : Piece.EndsBefore ⟨kind, text⟩ following
  · exact ⟨kind, text, following, lexeme, ends, rfl, Nat.le_refl _⟩
  · obtain ⟨longerKind, more, rest, nonempty, parts, longer⟩ := lexeme.grows ends
    have positive : 0 < more.length := List.length_pos_iff.mpr nonempty
    have shorter : rest.length < following.length := by
      rw [parts, List.length_append]
      omega
    obtain ⟨endedKind, ended, remaining, endedLexeme, endedEnds, shape, bound⟩ :=
      longer.exists_ended rest
    refine ⟨endedKind, ended, remaining, endedLexeme, endedEnds, ?_, ?_⟩
    · rw [shape, parts, List.append_assoc]
    · rw [List.length_append] at bound
      omega
termination_by following.length
decreasing_by exact shorter

/-! ## The longest word at the front of a text -/

/-- A word at the front of a text, and no word there is longer. -/
structure LongestLexeme (kind : PieceKind) (word rest : List Char) : Prop where
  lexeme : Lexeme kind word
  longest : ∀ (otherKind : PieceKind) (other : List Char),
    Lexeme otherKind other → other <+: word ++ rest → other.length ≤ word.length

def BeginsNoLexeme (text : List Char) : Prop :=
  ∀ (kind : PieceKind) (word : List Char), Lexeme kind word → ¬ word <+: text

namespace Piece

/-- Where any word begins, the first piece is a word at least as long. -/
theorem first_lexeme_of_isPrefix {kind : PieceKind} {word rest : List Char} {c : Char}
    (lexeme : Lexeme kind word) (front : word <+: c :: rest) :
    Lexeme (first c rest).1.kind (first c rest).1.text ∧
      word.length ≤ (first c rest).1.text.length := by
  obtain ⟨following, shape⟩ := front
  obtain ⟨endedKind, ended, remaining, endedLexeme, ends, same, bound⟩ :=
    lexeme.exists_ended following
  rw [first_of_lexeme endedLexeme ends (same.trans shape)]
  exact ⟨endedLexeme, bound⟩

theorem longest_of_first {piece : Piece} {c : Char} {rest following : List Char}
    (taken : first c rest = (piece, following)) (lexeme : Lexeme piece.kind piece.text) :
    LongestLexeme piece.kind piece.text following := by
  refine ⟨lexeme, ?_⟩
  intro otherKind other otherLexeme front
  rw [append_of_first taken] at front
  have bound := (first_lexeme_of_isPrefix otherLexeme front).2
  rwa [taken] at bound

theorem first_of_longest {kind : PieceKind} {word rest following : List Char} {c : Char}
    (longest : LongestLexeme kind word following) (shape : word ++ following = c :: rest) :
    first c rest = (⟨kind, word⟩, following) := by
  by_cases ends : EndsBefore ⟨kind, word⟩ following
  · exact first_of_lexeme longest.lexeme ends shape
  · obtain ⟨longerKind, more, remaining, nonempty, rfl, longer⟩ := longest.lexeme.grows ends
    have front : word ++ more <+: word ++ (more ++ remaining) :=
      ⟨remaining, List.append_assoc _ _ _⟩
    have bound := longest.longest longerKind (word ++ more) longer front
    have positive : 0 < more.length := List.length_pos_iff.mpr nonempty
    rw [List.length_append] at bound
    omega

theorem first_of_beginsNoLexeme {c : Char} {rest : List Char}
    (none : BeginsNoLexeme (c :: rest)) :
    first c rest = if c = '"' then (⟨.openString, '"' :: rest⟩, []) else (⟨.stray, [c]⟩, rest) := by
  cases taken : first c rest with
  | mk piece following =>
      obtain ⟨formed, ends, parts⟩ := first_eq_iff.mp taken
      cases formed with
      | lexeme lexeme => exact absurd ⟨following, parts⟩ (none _ _ lexeme)
      | @stray leading role =>
          obtain ⟨rfl, rfl⟩ := List.cons.inj parts
          rw [if_neg (Lead.ne_of_stray role).1]
          rfl
      | openString _ =>
          obtain rfl : following = [] := ends
          rw [List.append_nil] at parts
          obtain ⟨rfl, rfl⟩ := List.cons.inj parts
          rw [if_pos rfl]

theorem beginsNoLexeme_of_first {piece : Piece} {c : Char} {rest following : List Char}
    (taken : first c rest = (piece, following)) (unclassed : ¬ Lexeme piece.kind piece.text) :
    BeginsNoLexeme (c :: rest) := by
  intro kind word lexeme front
  have firstLexeme := (first_lexeme_of_isPrefix lexeme front).1
  rw [taken] at firstLexeme
  exact unclassed firstLexeme

end Piece

end Lox

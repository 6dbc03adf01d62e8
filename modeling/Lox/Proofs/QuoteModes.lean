import Lox.Proofs.OpenString
import Mathlib.Data.List.Induction

/-!
# Modes of reading

Four modes tell what a quote means at a place of a text, character by character and without any
notion of tokens. A text leaves a string open exactly if it ends in the mode of strings.
-/

set_option autoImplicit false

namespace Lox

inductive Mode where
  | code
  -- code just behind a slash, which a second slash turns into a comment
  | slash
  | string
  | comment
  deriving DecidableEq

namespace Mode

def step (mode : Mode) (c : Char) : Mode :=
  match mode with
  | code => if c = '"' then string else if c = '/' then slash else code
  | slash => if c = '"' then string else if c = '/' then comment else code
  | string => if c = '"' then code else string
  | comment => if c = '\n' then code else comment

def run (mode : Mode) (text : List Char) : Mode :=
  text.foldl step mode

def after (text : List Char) : Mode :=
  code.run text

def Opens (mode : Mode) : Prop :=
  mode = code ∨ mode = slash

instance (mode : Mode) : Decidable mode.Opens :=
  inferInstanceAs (Decidable (_ ∨ _))

@[simp] theorem run_nil (mode : Mode) : mode.run [] = mode := rfl

@[simp] theorem run_cons (mode : Mode) (c : Char) (rest : List Char) :
    mode.run (c :: rest) = (mode.step c).run rest := rfl

@[simp] theorem run_append (mode : Mode) (first second : List Char) :
    mode.run (first ++ second) = (mode.run first).run second := by
  simp only [run, List.foldl_append]

/-! ## Where a string was opened -/

private theorem step_eq_string_iff {mode : Mode} {c : Char} :
    mode.step c = string ↔ (mode = string ∧ c ≠ '"') ∨ (mode.Opens ∧ c = '"') := by
  cases mode with
  | code =>
      by_cases quote : c = '"' <;> by_cases slash : c = '/' <;>
        simp [step, Opens, quote, slash]
  | slash =>
      by_cases quote : c = '"' <;> by_cases slash : c = '/' <;>
        simp [step, Opens, quote, slash]
  | string => by_cases quote : c = '"' <;> simp [step, Opens, quote]
  | comment => by_cases feed : c = '\n' <;> simp [step, Opens, feed]

/-- The mode of strings was entered by a quote, and no quote has come since. -/
theorem exists_opening {text : List Char} (inString : after text = string) :
    ∃ before body, text = before ++ '"' :: body ∧ (after before).Opens ∧ '"' ∉ body := by
  induction text using List.reverseRecOn with
  | nil => cases inString
  | append_singleton earlier last ih =>
      have stepped : (after earlier).step last = string := by
        rw [after, run_append] at inString
        exact inString
      -- Either the last character left the mode as it was, or it is the opening quote itself.
      rcases step_eq_string_iff.mp stepped with ⟨inside, notQuote⟩ | ⟨opens, rfl⟩
      · obtain ⟨before, body, rfl, opens, absent⟩ := ih inside
        refine ⟨before, body ++ [last], by simp, opens, ?_⟩
        intro member
        rcases List.mem_append.mp member with within | same
        · exact absent within
        · exact notQuote (List.mem_singleton.mp same).symm
      · exact ⟨earlier, [], rfl, opens, List.not_mem_nil⟩

/-! ## The modes of pieces -/

def ofKind : PieceKind → Mode
  | .token .slash => slash
  | .comment => comment
  | .openString => string
  | _ => code

theorem ofKind_eq_string_iff {kind : PieceKind} : ofKind kind = string ↔ kind = .openString := by
  cases kind with
  | token kind => cases kind <;> simp [ofKind]
  | space => simp [ofKind]
  | comment => simp [ofKind]
  | stray => simp [ofKind]
  | openString => simp [ofKind]

private theorem run_code_of_plain {text : List Char}
    (plain : ∀ c ∈ text, c ≠ '"' ∧ c ≠ '/') : code.run text = code := by
  induction text with
  | nil => rfl
  | cons c rest ih =>
      obtain ⟨notQuote, notSlash⟩ := plain c List.mem_cons_self
      have stays : code.step c = code := by simp [step, notQuote, notSlash]
      rw [run_cons, stays]
      exact ih fun other member => plain other (List.mem_cons_of_mem _ member)

private theorem run_string_of_not_mem {body : List Char} (inside : '"' ∉ body) :
    string.run body = string := by
  induction body with
  | nil => rfl
  | cons c rest ih =>
      rw [List.mem_cons, not_or] at inside
      have stays : string.step c = string := by simp [step, Ne.symm inside.1]
      rw [run_cons, stays, ih inside.2]

private theorem run_comment_of_not_mem {body : List Char} (inside : '\n' ∉ body) :
    comment.run body = comment := by
  induction body with
  | nil => rfl
  | cons c rest ih =>
      rw [List.mem_cons, not_or] at inside
      have stays : comment.step c = comment := by simp [step, Ne.symm inside.1]
      rw [run_cons, stays, ih inside.2]

private theorem IsDigit.plain {c : Char} (digit : IsDigit c) : c ≠ '"' ∧ c ≠ '/' :=
  ⟨digit.ne (by decide), digit.ne (by decide)⟩

private theorem wordChar_plain {c : Char} (inside : IsLetter c ∨ IsDigit c) :
    c ≠ '"' ∧ c ≠ '/' := by
  rcases inside with letter | digit
  · exact ⟨letter.ne (by decide), letter.ne (by decide)⟩
  · exact IsDigit.plain digit

private theorem run_word {first : Char} {rest : List Char} (letter : IsLetter first)
    (all : ∀ c ∈ rest, IsLetter c ∨ IsDigit c) : code.run (first :: rest) = code := by
  refine run_code_of_plain fun c member => wordChar_plain ?_
  rcases List.mem_cons.mp member with rfl | later
  · exact .inl letter
  · exact all c later

private theorem run_lexeme {kind : PieceKind} {text : List Char} (lexeme : Lexeme kind text) :
    code.run text = ofKind kind := by
  cases lexeme with
  | @mark c kind member =>
      have modes : ∀ entry ∈ marks, code.run [entry.1] = ofKind (.token entry.2) := by decide
      exact modes (c, kind) member
  | @operator _ kind member =>
      have modes : ∀ entry ∈ operators, code.run entry.1 = ofKind (.token entry.2) := by decide
      exact modes (text, kind) member
  | integer _ all => exact run_code_of_plain fun c member => IsDigit.plain (all c member)
  | decimal _ wholeAll _ fractionAll =>
      have whole := run_code_of_plain fun c member => IsDigit.plain (wholeAll c member)
      have fraction := run_code_of_plain fun c member => IsDigit.plain (fractionAll c member)
      rw [run_append, whole, run_cons]
      exact fraction
  | keyword letter all _ => exact run_word letter all
  | identifier letter all _ => exact run_word letter all
  | string inside =>
      change (string.run _) = code
      rw [run_append, run_string_of_not_mem inside]
      rfl
  | comment inside => exact run_comment_of_not_mem inside
  | blank blank => rcases blank with rfl | rfl | rfl | rfl <;> rfl

private theorem run_piece {piece : Piece} (formed : piece.WellFormed) :
    code.run piece.text = ofKind piece.kind := by
  cases formed with
  | lexeme lexeme => exact run_lexeme lexeme
  | @stray c role =>
      refine run_code_of_plain fun other member => ?_
      rw [List.mem_singleton.mp member]
      refine ⟨(Lead.ne_of_stray role).1, ?_⟩
      rintro rfl
      exact absurd role (by decide)
  | openString inside => exact run_string_of_not_mem inside

private theorem run_behind {piece : Piece} {following : List Char}
    (ends : piece.EndsBefore following) (nonempty : following ≠ []) :
    (ofKind piece.kind).run following = code.run following := by
  obtain ⟨next, rest, rfl⟩ := List.exists_cons_of_ne_nil nonempty
  obtain ⟨kind, text⟩ := piece
  -- A mode tells itself from code by one character at most, before which its piece does not end.
  have same : (ofKind kind).step next = code.step next := by
    cases kind with
    | openString => exact absurd ends nonempty
    | comment =>
        have feed : next = '\n' := by simpa using (startsOutside_cons _ _ _).mp ends
        rw [feed]
        rfl
    | space => rfl
    | stray => rfl
    | token kind =>
        cases kind
        case slash =>
          have notSlash : next ≠ '/' := by simpa using (startsOutside_cons _ _ _).mp ends
          simp [ofKind, step, notSlash]
        all_goals rfl
  rw [run_cons, run_cons, same]

theorem after_cons {c : Char} {rest following : List Char} {piece : Piece}
    (taken : Piece.first c rest = (piece, following)) :
    after (c :: rest) = if following = [] then ofKind piece.kind else after following := by
  obtain ⟨formed, ends, parts⟩ := Piece.first_eq_iff.mp taken
  rw [← parts, after, run_append, run_piece formed]
  by_cases empty : following = []
  · rw [if_pos empty, empty, run_nil]
  · rw [if_neg empty, run_behind ends empty, after]

theorem after_eq_of_getLast? {text : List Char} {last : Piece}
    (isLast : (pieces text).getLast? = some last) : after text = ofKind last.kind := by
  induction text using pieces_induction with
  | nil => rw [pieces_nil] at isLast; cases isLast
  | cons c rest piece following taken ih =>
      rw [pieces_cons, taken, List.getLast?_cons] at isLast
      rw [after_cons taken]
      cases following with
      | nil =>
          rw [pieces_nil] at isLast
          cases isLast
          rfl
      | cons next others =>
          rw [if_neg (List.cons_ne_nil _ _)]
          refine ih ?_
          rw [pieces_cons, List.getLast?_cons] at isLast ⊢
          exact isLast

theorem after_eq_string_iff (text : List Char) :
    after text = string ↔ endsInString text = true := by
  induction text using pieces_induction with
  | nil => simp [after]
  | cons c rest piece following taken ih =>
      have ends := (Piece.first_eq_iff.mp taken).2.1
      rw [after_cons taken, endsInString_cons taken]
      by_cases empty : following = []
      · subst empty
        rw [if_pos rfl, endsInString_nil, Bool.or_false, beq_iff_eq]
        exact ofKind_eq_string_iff
      · have notOpen : piece.kind ≠ .openString := by
          intro isOpen
          rw [Piece.EndsBefore, isOpen] at ends
          exact empty ends
        rw [if_neg empty, ih, beq_eq_false_iff_ne.mpr notOpen, Bool.false_or]

end Mode

end Lox

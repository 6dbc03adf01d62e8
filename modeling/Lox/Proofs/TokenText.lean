import Lox.Proofs.PieceJoin

/-!
# Token texts

Texts that are a token each, what their first character tells about them, and which of them run on
into a second one that is put directly behind them.
-/

set_option autoImplicit false

namespace Lox

theorem Lexeme.kind_unique {kind other : PieceKind} {text : List Char} (lexeme : Lexeme kind text)
    (otherLexeme : Lexeme other text) : kind = other := by
  obtain ⟨c, rest, rfl⟩ := List.exists_cons_of_ne_nil lexeme.ne_nil
  have taken := Piece.first_of_lexeme lexeme (Piece.endsBefore_nil _) (List.append_nil _)
  have otherTaken := Piece.first_of_lexeme otherLexeme (Piece.endsBefore_nil _) (List.append_nil _)
  rw [taken] at otherTaken
  exact congrArg (fun first => first.1.kind) otherTaken

def spellings : List (List Char × TokenKind) :=
  marks.map (fun entry => ([entry.1], entry.2)) ++ operators

theorem lexeme_of_mem_spellings {text : List Char} {kind : TokenKind}
    (member : (text, kind) ∈ spellings) : Lexeme (.token kind) text := by
  rcases List.mem_append.mp member with mark | operator
  · obtain ⟨entry, entryMember, same⟩ := List.mem_map.mp mark
    obtain ⟨rfl, rfl⟩ := Prod.mk.inj same
    exact .mark entryMember
  · exact .operator operator

structure TokenText where
  kind : TokenKind
  text : List Char
  lexeme : Lexeme (.token kind) text

namespace TokenText

def IsWord (token : TokenText) : Prop :=
  token.kind = .identifier ∨ ∃ word, token.kind = .keyword word

def IsNumber (token : TokenText) : Prop :=
  token.kind = .number

def lead (token : TokenText) : Char :=
  token.text.head token.lexeme.ne_nil

theorem text_eq_cons (token : TokenText) : token.text = token.lead :: token.text.tail :=
  (List.cons_head_tail _).symm

theorem first_eq (token : TokenText) :
    Piece.first token.lead token.text.tail = (⟨.token token.kind, token.text⟩, []) := by
  refine Piece.first_of_lexeme token.lexeme (Piece.endsBefore_nil _) ?_
  rw [List.append_nil]
  exact token.text_eq_cons

theorem text_eq_iff_kind_eq (token : TokenText) {text : List Char} {kind : TokenKind}
    (spelled : (text, kind) ∈ spellings) : token.text = text ↔ token.kind = kind := by
  obtain ⟨tokenKind, tokenText, lexeme⟩ := token
  constructor
  · rintro rfl
    exact PieceKind.token.inj (lexeme.kind_unique (lexeme_of_mem_spellings spelled))
  · rintro rfl
    have injective : ∀ left ∈ spellings, ∀ right ∈ spellings,
        left.2 = right.2 → left.1 = right.1 := by decide
    cases lexeme with
    | @mark c _ member =>
        have listed : ([c], tokenKind) ∈ spellings :=
          List.mem_append_left _ (List.mem_map.mpr ⟨_, member, rfl⟩)
        exact injective _ listed _ spelled rfl
    | operator member => exact injective _ (List.mem_append_right _ member) _ spelled rfl
    | integer _ _ => exact absurd spelled (by simp [spellings, marks, operators])
    | decimal _ _ _ _ => exact absurd spelled (by simp [spellings, marks, operators])
    | keyword _ _ _ => exact absurd spelled (by simp [spellings, marks, operators])
    | identifier _ _ _ => exact absurd spelled (by simp [spellings, marks, operators])
    | string _ => exact absurd spelled (by simp [spellings, marks, operators])

/-! ## First characters -/

theorem isDigit_lead_iff (token : TokenText) : isDigit token.lead = true ↔ token.IsNumber := by
  constructor
  · intro digit
    have first := token.first_eq
    rw [Piece.first, Lead.ofChar_eq_digit_iff.mpr digit] at first
    exact (PieceKind.token.inj (congrArg (fun taken => taken.1.kind) first)).symm
  · obtain ⟨kind, text, lexeme⟩ := token
    rintro rfl
    cases lexeme with
    | mark member => exact absurd member (by simp [marks])
    | operator member => exact absurd member (by simp [operators])
    | integer _ all => exact isDigit_iff.mpr (all _ (List.head_mem _))
    | decimal nonempty all _ _ =>
        obtain ⟨digit, rest, rfl⟩ := List.exists_cons_of_ne_nil nonempty
        exact isDigit_iff.mpr (all digit List.mem_cons_self)

theorem isLetter_lead_iff (token : TokenText) : isLetter token.lead = true ↔ token.IsWord := by
  constructor
  · intro letter
    have first := token.first_eq
    rw [Piece.first, Lead.ofChar_of_isLetter (isLetter_iff.mp letter)] at first
    have kind := PieceKind.token.inj (congrArg (fun taken => taken.1.kind) first)
    rw [IsWord, ← kind, TokenKind.ofWord]
    cases Keyword.ofSpelling? (token.lead :: token.text.tail.takeWhile isWordChar) with
    | none => exact .inl rfl
    | some word => exact .inr ⟨word, rfl⟩
  · obtain ⟨kind, text, lexeme⟩ := token
    rintro (rfl | ⟨word, rfl⟩)
    · cases lexeme with
      | mark member => exact absurd member (by simp [marks])
      | operator member => exact absurd member (by simp [operators])
      | identifier letter _ _ => exact isLetter_iff.mpr letter
    · cases lexeme with
      | mark member => exact absurd member (by simp [marks])
      | operator member => exact absurd member (by simp [operators])
      | keyword letter _ _ => exact isLetter_iff.mpr letter

theorem isWordChar_lead_iff (token : TokenText) :
    isWordChar token.lead = true ↔ token.IsWord ∨ token.IsNumber := by
  rw [isWordChar, Bool.or_eq_true, isLetter_lead_iff, isDigit_lead_iff]

theorem lead_eq_of_text_eq {token : TokenText} {c : Char} {rest : List Char}
    (shape : token.text = c :: rest) : token.lead = c := by
  simp only [lead, shape, List.head_cons]

theorem lead_eq_equal_iff (token : TokenText) :
    token.lead = '=' ↔ token.text = ['='] ∨ token.text = ['=', '='] := by
  constructor
  · intro equal
    have first := token.first_eq
    rw [equal] at first
    change Piece.firstOperator '=' .equal .equalEqual _ = _ at first
    unfold Piece.firstOperator at first
    split at first
    · exact .inr (congrArg (fun taken => taken.1.text) first).symm
    · exact .inl (congrArg (fun taken => taken.1.text) first).symm
  · rintro (single | double)
    · exact lead_eq_of_text_eq single
    · exact lead_eq_of_text_eq double

theorem lead_eq_slash_iff (token : TokenText) : token.lead = '/' ↔ token.text = ['/'] := by
  constructor
  · intro slash
    have first := token.first_eq
    rw [slash] at first
    change Piece.firstSlash '/' _ = _ at first
    unfold Piece.firstSlash at first
    split at first
    · exact nomatch congrArg (fun taken => taken.1.kind) first
    · exact (congrArg (fun taken => taken.1.text) first).symm
  · exact lead_eq_of_text_eq

theorem lead_eq_point_iff (token : TokenText) : token.lead = '.' ↔ token.text = ['.'] := by
  constructor
  · intro point
    have first := token.first_eq
    rw [point] at first
    exact (congrArg (fun taken => taken.1.text) first).symm
  · exact lead_eq_of_text_eq

theorem isBlank_lead (token : TokenText) : isBlank token.lead = false := by
  cases blank : isBlank token.lead with
  | false => rfl
  | true =>
      have first := token.first_eq
      have taken : Piece.first token.lead token.text.tail =
          (⟨.space, [token.lead]⟩, token.text.tail) :=
        Piece.first_of_lexeme (.blank (isBlank_iff.mp blank)) trivial rfl
      rw [taken] at first
      exact nomatch congrArg (fun taken => taken.1.kind) first

/-! ## Texts put together -/

/-- The first text goes on in the second when nothing stands between them. -/
inductive RunsInto : TokenText → TokenText → Prop where
  | word {first second : TokenText} :
      first.IsWord → second.IsWord ∨ second.IsNumber → RunsInto first second
  | number {first second : TokenText} :
      first.IsNumber → second.IsNumber → RunsInto first second
  | operator {first second : TokenText} :
      first.text ∈ [['!'], ['='], ['<'], ['>']] → second.text ∈ [['='], ['=', '=']] →
      RunsInto first second
  | comment {first second : TokenText} :
      first.text = ['/'] → second.text = ['/'] → RunsInto first second

/-- A number that has no point yet takes a point that a digit follows. -/
def TakesPoint (first second : TokenText) : Prop :=
  first.IsNumber ∧ '.' ∉ first.text ∧ second.text = ['.']

private theorem mem_signs_iff (token : TokenText) :
    token.text ∈ [['!'], ['='], ['<'], ['>']] ↔
      token.kind = .bang ∨ token.kind = .equal ∨ token.kind = .less ∨ token.kind = .greater := by
  have bang : token.text = ['!'] ↔ token.kind = .bang := token.text_eq_iff_kind_eq (by decide)
  have equal : token.text = ['='] ↔ token.kind = .equal := token.text_eq_iff_kind_eq (by decide)
  have less : token.text = ['<'] ↔ token.kind = .less := token.text_eq_iff_kind_eq (by decide)
  have greater : token.text = ['>'] ↔ token.kind = .greater :=
    token.text_eq_iff_kind_eq (by decide)
  simp only [List.mem_cons, List.not_mem_nil, or_false, bang, equal, less, greater]

private theorem runsInto_iff (first second : TokenText) :
    RunsInto first second ↔
      (first.IsWord ∧ isWordChar second.lead = true) ∨
      (first.IsNumber ∧ isDigit second.lead = true) ∨
      ((first.kind = .bang ∨ first.kind = .equal ∨ first.kind = .less ∨ first.kind = .greater) ∧
        second.lead = '=') ∨
      (first.kind = .slash ∧ second.lead = '/') := by
  have slash : first.text = ['/'] ↔ first.kind = .slash := first.text_eq_iff_kind_eq (by decide)
  have equals : second.lead = '=' ↔ second.text ∈ [['='], ['=', '=']] := by
    simp only [lead_eq_equal_iff, List.mem_cons, List.not_mem_nil, or_false]
  rw [isWordChar_lead_iff, isDigit_lead_iff, equals, lead_eq_slash_iff, ← mem_signs_iff, ← slash]
  constructor
  · intro runs
    cases runs with
    | word isWord follows => exact .inl ⟨isWord, follows⟩
    | number isNumber follows => exact .inr (.inl ⟨isNumber, follows⟩)
    | operator sign follows => exact .inr (.inr (.inl ⟨sign, follows⟩))
    | comment isSlash follows => exact .inr (.inr (.inr ⟨isSlash, follows⟩))
  · rintro (⟨isWord, follows⟩ | ⟨isNumber, follows⟩ | ⟨sign, follows⟩ | ⟨isSlash, follows⟩)
    · exact .word isWord follows
    · exact .number isNumber follows
    · exact .operator sign follows
    · exact .comment isSlash follows

private theorem startsFraction_append_iff (token : TokenText) (tail : List Char) :
    startsFraction (token.text ++ tail) = true ↔
      token.text = ['.'] ∧ ¬ StartsOutside isDigit tail := by
  by_cases point : token.text = ['.']
  · rw [point]
    cases tail with
    | nil => simp [startsFraction]
    | cons next rest => simp [startsFraction]
  · have notPoint : token.lead ≠ '.' := fun same => point (token.lead_eq_point_iff.mp same)
    rw [token.text_eq_cons]
    simp [startsFraction, notPoint]

/-- A token ends before a second one exactly if it neither runs into it nor takes it as the point of
a fraction. -/
theorem endsBefore_append_iff (first second : TokenText) (tail : List Char) :
    Piece.EndsBefore ⟨.token first.kind, first.text⟩ (second.text ++ tail) ↔
      ¬ RunsInto first second ∧ ¬ (TakesPoint first second ∧ ¬ StartsOutside isDigit tail) := by
  have fraction := startsFraction_append_iff second tail
  rw [runsInto_iff, TakesPoint, and_assoc, and_assoc, ← fraction]
  rw [second.text_eq_cons, List.cons_append]
  obtain ⟨kind, text, lexeme⟩ := first
  cases kind
  case number =>
    simp only [Piece.EndsBefore, IsWord, IsNumber, startsOutside_cons]
    grind
  all_goals simp [Piece.EndsBefore, IsWord, IsNumber]

end TokenText

end Lox

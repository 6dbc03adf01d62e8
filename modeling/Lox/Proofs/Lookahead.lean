import Lox.Proofs.Spans

/-!
# Bounded lookahead

Where a token or an error ends is settled by the two characters behind it. What two more characters
follow in a source is therefore there to stay, whatever is put behind the source.
-/

set_option autoImplicit false

namespace Lox

def settled {Item : Type} (limit : Nat) (found : List (Spanned Item)) : List (Spanned Item) :=
  found.filter fun spanned => spanned.stop + 2 ≤ limit

/-! ## One piece -/

/-- With two characters behind it, a piece sees nothing of what comes later. -/
theorem Piece.endsBefore_append_iff {piece : Piece} {following : List Char}
    (enough : 2 ≤ following.length) (more : List Char) :
    piece.EndsBefore (following ++ more) ↔ piece.EndsBefore following := by
  match following with
  | first :: second :: rest =>
      constructor
      · intro ends
        exact ends.congr_cons rfl
      · intro ends
        exact ends.congr_cons rfl

theorem Piece.first_append_iff {c : Char} {rest following : List Char} {piece : Piece}
    (enough : 2 ≤ following.length) (more : List Char) :
    first c (rest ++ more) = (piece, following ++ more) ↔
      first c rest = (piece, following) := by
  rw [first_eq_iff, first_eq_iff, endsBefore_append_iff enough, ← List.append_assoc,
    ← List.cons_append, List.append_left_inj]

/-- A first piece that reaches into the last two characters of a text does so also when more text
is put behind it. -/
theorem Piece.reaches_append {c : Char} {rest following longerFollowing more : List Char}
    {piece longer : Piece} (taken : first c rest = (piece, following))
    (reaches : following.length < 2)
    (longerTaken : first c (rest ++ more) = (longer, longerFollowing)) :
    (c :: rest).length < longer.text.length + 2 := by
  have parts : longer.text ++ longerFollowing = (c :: rest) ++ more := append_of_first longerTaken
  rcases List.append_eq_append_iff.mp parts with ⟨between, shape, rfl⟩ | ⟨beyond, shape, _⟩
  · by_cases enough : 2 ≤ between.length
    · rw [first_append_iff enough, taken] at longerTaken
      cases longerTaken
      omega
    · rw [shape, List.length_append]
      omega
  · rw [shape, List.length_append]
    omega

/-! ## All pieces -/

private theorem limit_lt_of_mem_placeFrom {start line limit : Nat} {piece : Piece}
    {rest : List Piece} {placed : Placed} (late : limit < start + piece.text.length + 2)
    (member : placed ∈ placeFrom start line (piece :: rest)) : limit < placed.stop + 2 := by
  rw [placeFrom_cons] at member
  cases List.mem_cons.mp member with
  | inl same =>
      rw [same]
      exact late
  | inr later =>
      have behind := (le_of_mem_placeFrom later).1
      rw [Placed.stop]
      omega

private theorem filter_placeFrom_of_late {start line limit : Nat} {pieces : List Piece}
    (late : ∀ piece ∈ pieces.head?, limit < start + piece.text.length + 2) :
    (placeFrom start line pieces).filter (fun placed => placed.stop + 2 ≤ limit) = [] := by
  apply List.filter_eq_nil_iff.mpr
  intro placed member
  cases pieces with
  | nil => cases member
  | cons piece rest =>
      have beyond := limit_lt_of_mem_placeFrom (late piece rfl) member
      simpa using beyond

theorem filter_placeFrom_append (text more : List Char) (start line : Nat) :
    (placeFrom start line (pieces (text ++ more))).filter
        (fun placed => placed.stop + 2 ≤ start + text.length) =
      (placeFrom start line (pieces text)).filter
        (fun placed => placed.stop + 2 ≤ start + text.length) := by
  induction text using pieces_induction generalizing start line with
  | nil =>
      rw [List.nil_append, pieces_nil, placeFrom_nil, List.filter_nil]
      apply filter_placeFrom_of_late
      intro piece _
      rw [List.length_nil]
      omega
  | cons c rest piece following taken ih =>
      have lengths := congrArg List.length (Piece.append_of_first taken)
      rw [List.length_append] at lengths
      -- With less than two characters behind it this piece, and all that follows, is too late to count.
      by_cases enough : 2 ≤ following.length
      · have longer := (Piece.first_append_iff enough more).mpr taken
        have limit : start + (c :: rest).length =
            start + piece.text.length + following.length := by omega
        rw [List.cons_append, pieces_cons, longer, pieces_cons, taken, placeFrom_cons,
          placeFrom_cons, List.filter_cons, List.filter_cons, limit, ih]
      · cases longerTaken : Piece.first c (rest ++ more) with
        | mk longer longerFollowing =>
            have reaches := Piece.reaches_append taken (Nat.lt_of_not_le enough) longerTaken
            rw [List.cons_append, pieces_cons, longerTaken, pieces_cons, taken,
              filter_placeFrom_of_late, filter_placeFrom_of_late]
            · intro first isFirst
              cases isFirst
              dsimp only
              omega
            · intro first isFirst
              cases isFirst
              dsimp only
              omega

/-! ## All tokens and errors -/

private theorem settled_spanned {Item : Type} (shown : Placed → Option Item) (limit : Nat)
    (placed : List Placed) :
    settled limit (placed.filterMap (Placed.spanned? shown)) =
      (placed.filter fun found => found.stop + 2 ≤ limit).filterMap (Placed.spanned? shown) := by
  rw [settled, List.filter_filterMap, List.filterMap_filter]
  apply congrFun (congrArg List.filterMap (funext _))
  intro found
  cases item : shown found with
  | none => simp [Placed.spanned?, item]
  | some item => simp [Placed.spanned?, item, Option.filter_some]

/-- Whatever ends at least two characters before the end of a source is read there as well when text
is appended, and nothing else is read there. -/
theorem settled_append (source more : String) :
    settled source.length (spannedTokens (source ++ more)) =
        settled source.length (spannedTokens source) ∧
      settled source.length (spannedErrors (source ++ more)) =
        settled source.length (spannedErrors source) := by
  have placed := filter_placeFrom_append source.toList more.toList 0 1
  rw [Nat.zero_add, String.length_toList] at placed
  rw [spannedTokens, spannedTokens, spannedErrors, spannedErrors, settled_spanned, settled_spanned,
    settled_spanned, settled_spanned, String.toList_append, placedPieces, placedPieces, placed]
  exact ⟨rfl, rfl⟩

/-- One character is not enough: the number ends before a point that a digit may follow. -/
example :
    (spannedTokens "1.").map (·.stop) = [1, 2] ∧ (spannedTokens "1.5").map (·.stop) = [3] := by
  decide +kernel

end Lox

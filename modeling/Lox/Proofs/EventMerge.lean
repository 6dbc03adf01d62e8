import Lox.Lexing.Event
import Lox.Proofs.LineNumbers

/-!
# Events in source order

The events of a lexing are its tokens and its errors in one row, each at the place where it begins
in the source, and a summary behind them. The two lists and the places leave no other order.
-/

set_option autoImplicit false

namespace Lox

def Event.token? : Event → Option Token
  | .token read => some read
  | .error _ | .summary _ _ => none

def Event.error? : Event → Option LexicalError
  | .error met => some met
  | .token _ | .summary _ _ => none

def Spanned.part? {Item Part : Type} (part : Item → Option Part) (found : Spanned Item) :
    Option (Spanned Part) :=
  (part found.item).map fun item => ⟨item, found.start, found.stop⟩

def tokensAmong (told : List (Spanned Event)) : List (Spanned Token) :=
  told.filterMap (Spanned.part? Event.token?)

def errorsAmong (told : List (Spanned Event)) : List (Spanned LexicalError) :=
  told.filterMap (Spanned.part? Event.error?)

/-- A row of events that holds given tokens and given errors, and nothing else, by where they
begin. -/
structure Merges (tokens : List (Spanned Token)) (errors : List (Spanned LexicalError))
    (told : List (Spanned Event)) : Prop where
  tokens_eq : tokensAmong told = tokens
  errors_eq : errorsAmong told = errors
  complete : ∀ found ∈ told, found.item.token?.isSome ∨ found.item.error?.isSome
  ordered : told.Pairwise fun left right => left.start < right.start

/-! ## Uniqueness -/

theorem Event.token?_eq_some_iff {event : Event} {token : Token} :
    event.token? = some token ↔ event = .token token := by
  cases event <;> simp [token?]

theorem Event.error?_eq_some_iff {event : Event} {error : LexicalError} :
    event.error? = some error ↔ event = .error error := by
  cases event <;> simp [error?]

private theorem mem_filterMap_part?_iff {Part : Type} {part : Event → Option Part}
    {make : Part → Event} (inverse : ∀ {event item}, part event = some item ↔ event = make item)
    {told : List (Spanned Event)} {item : Part} {start stop : Nat} :
    ⟨item, start, stop⟩ ∈ told.filterMap (Spanned.part? part) ↔
      ⟨make item, start, stop⟩ ∈ told := by
  constructor
  · intro member
    obtain ⟨found, foundMember, shown⟩ := List.mem_filterMap.mp member
    obtain ⟨_, partShown, same⟩ := Option.map_eq_some_iff.mp shown
    cases same
    have made : found.item = make item := inverse.mp partShown
    rw [← made]
    exact foundMember
  · intro member
    refine List.mem_filterMap.mpr ⟨_, member, ?_⟩
    rw [Spanned.part?, inverse.mpr rfl]
    rfl

section Merges

variable {tokens : List (Spanned Token)} {errors : List (Spanned LexicalError)}
  {told other : List (Spanned Event)}

/-- Two rows of the same tokens and errors have the same events at the same places. -/
theorem Merges.mem_of_mem (merges : Merges tokens errors told)
    (others : Merges tokens errors other) {found : Spanned Event} (member : found ∈ told) :
    found ∈ other := by
  have complete := merges.complete found member
  obtain ⟨event, start, stop⟩ := found
  cases event with
  | token token =>
      have listed := (mem_filterMap_part?_iff Event.token?_eq_some_iff).mpr member
      rw [← tokensAmong, merges.tokens_eq, ← others.tokens_eq] at listed
      exact (mem_filterMap_part?_iff Event.token?_eq_some_iff).mp listed
  | error error =>
      have listed := (mem_filterMap_part?_iff Event.error?_eq_some_iff).mpr member
      rw [← errorsAmong, merges.errors_eq, ← others.errors_eq] at listed
      exact (mem_filterMap_part?_iff Event.error?_eq_some_iff).mp listed
  | summary tokens errors => simp [Event.token?, Event.error?] at complete

theorem Merges.nodup (merges : Merges tokens errors told) : told.Nodup := by
  refine merges.ordered.imp ?_
  rintro left _ before rfl
  exact Nat.lt_irrefl _ before

theorem Merges.unique (merges : Merges tokens errors told)
    (others : Merges tokens errors other) : told = other := by
  -- No two events begin at one offset: what the events are settles in which order they stand.
  have perm : told.Perm other := by
    rw [List.perm_ext_iff_of_nodup merges.nodup others.nodup]
    intro found
    exact ⟨merges.mem_of_mem others, others.mem_of_mem merges⟩
  exact perm.eq_of_pairwise (fun _ _ _ _ before after => absurd before (Nat.lt_asymm after))
    merges.ordered others.ordered

end Merges

/-! ## The events of a source -/

def spannedEvents (source : String) : List (Spanned Event) :=
  (placedPieces source.toList).filterMap (Placed.spanned? Placed.event?)

theorem events_eq (source : String) :
    events source = (spannedEvents source).map Spanned.item ++
      [.summary ((spannedTokens source).length + 1) (spannedErrors source).length] := by
  have tokens := congrArg List.length (map_item_spannedTokens source)
  have errors := congrArg List.length (map_item_spannedErrors source)
  have last := congrArg List.length (tokens_eq_dropLast source)
  simp only [List.length_map, List.length_append, List.length_singleton] at tokens errors last
  rw [tokens, errors, ← last, spannedEvents, map_item_spanned?]
  rfl

/-! ## The records of a source -/

end Lox

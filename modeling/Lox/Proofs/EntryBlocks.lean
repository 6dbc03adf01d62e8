import Lox.Proofs.EntryGrouping
import Lox.Proofs.StreamLines
import Mathlib.Data.List.Induction

/-!
# Entries as blocks of lines

The items of the prompt told by a division of its lines into consecutive blocks: which lines form an
entry, and which are lost to a fault. There is one such division, and the prompt follows it.
-/

set_option autoImplicit false

namespace Lox

inductive Block where
  | entry (lines : List String)
  /-- A line that cannot be read, and the lines before it that it makes the prompt drop. -/
  | lost (dropped : List String) (fault : Fault)

/-- From its first line on, no leading part of some lines has an even number of quotes. -/
def StaysOpen (lines : List String) : Prop :=
  ∀ part, part <+: lines → part ≠ [] → hasOddQuotes ("\n".intercalate part) = true

namespace Block

def lines : Block → List (Except Fault String)
  | entry lines => lines.map .ok
  | lost dropped fault => dropped.map .ok ++ [.error fault]

def item : Block → Except Fault String
  | entry lines => .ok ("\n".intercalate lines)
  | lost _ fault => .error fault

/-- A block does not go on behind the first line that closes what it opened. -/
def Minimal : Block → Prop
  | entry lines => lines ≠ [] ∧ ∀ part, part <+: lines → part ≠ [] → part ≠ lines →
      hasOddQuotes ("\n".intercalate part) = true
  | lost dropped _ => StaysOpen dropped

def Even : Block → Prop
  | entry lines => hasOddQuotes ("\n".intercalate lines) = false
  | lost _ _ => True

end Block

/-- A division of lines into blocks. Only the last block may be an entry with quotes that do not
pair up, for lack of further lines. -/
structure Groups (lines : List (Except Fault String)) (blocks : List Block) : Prop where
  cover : blocks.flatMap Block.lines = lines
  minimal : ∀ block ∈ blocks, block.Minimal
  even : ∀ block ∈ blocks.dropLast, block.Even

/-! ## Open lines -/

@[simp] theorem staysOpen_nil : StaysOpen [] := by
  intro part leading nonempty
  exact absurd (List.prefix_nil.mp leading) nonempty

theorem staysOpen_append_singleton_iff {lines : List String} {last : String} :
    StaysOpen (lines ++ [last]) ↔
      StaysOpen lines ∧ hasOddQuotes ("\n".intercalate (lines ++ [last])) = true := by
  constructor
  · intro staysOpen
    refine ⟨fun part leading => ?_, staysOpen _ (List.prefix_refl _) (by simp)⟩
    exact staysOpen part (leading.trans (List.prefix_append _ _))
  · rintro ⟨staysOpen, odd⟩ part leading nonempty
    rcases List.prefix_concat_iff.mp leading with rfl | earlier
    · exact odd
    · exact staysOpen part earlier nonempty

theorem Block.minimal_entry_iff {lines : List String} {last : String} :
    (Block.entry (lines ++ [last])).Minimal ↔ StaysOpen lines := by
  constructor
  · intro minimal part leading nonempty
    refine minimal.2 part (leading.trans (List.prefix_append _ _)) nonempty ?_
    rintro rfl
    have short := leading.length_le
    rw [List.length_append, List.length_singleton] at short
    omega
  · intro staysOpen
    refine ⟨by simp, fun part leading nonempty proper => ?_⟩
    exact staysOpen part ((List.prefix_concat_iff.mp leading).resolve_left proper) nonempty

theorem Block.Minimal.staysOpen {lines : List String} (minimal : (Block.entry lines).Minimal)
    (odd : hasOddQuotes ("\n".intercalate lines) = true) : StaysOpen lines := by
  intro part leading nonempty
  by_cases whole : part = lines
  · rw [whole]
    exact odd
  · exact minimal.2 part leading nonempty whole

namespace Grouping

def Gathers (grouping : Grouping) (lines : List String) : Prop :=
  match grouping.pending with
  | none => lines = []
  | some entry => lines ≠ [] ∧ entry.text = "\n".intercalate lines

theorem Gathers.joined {grouping : Grouping} {lines : List String}
    (gathers : grouping.Gathers lines) (line : String) :
    grouping.joined line = "\n".intercalate (lines ++ [line]) := by
  obtain ⟨items, pending⟩ := grouping
  cases pending with
  | none =>
      obtain rfl : lines = [] := gathers
      rfl
  | some entry =>
      obtain ⟨nonempty, text⟩ := gathers
      rw [intercalate_append_singleton nonempty, ← text]
      rfl

theorem Gathers.finish {grouping : Grouping} {lines : List String}
    (gathers : grouping.Gathers lines) :
    grouping.finish = grouping.items.reverse ++
      if lines = [] then [] else [.ok ("\n".intercalate lines)] := by
  obtain ⟨items, pending⟩ := grouping
  cases pending with
  | none =>
      obtain rfl : lines = [] := gathers
      simp [Grouping.finish]
  | some entry =>
      obtain ⟨nonempty, text⟩ := gathers
      simp [Grouping.finish, nonempty, text]

theorem Gathers.add_of_odd {grouping : Grouping} {lines : List String} {line : String}
    (gathers : grouping.Gathers lines)
    (odd : hasOddQuotes ("\n".intercalate (lines ++ [line])) = true) :
    (grouping.add (.ok line)).items = grouping.items ∧
      (grouping.add (.ok line)).Gathers (lines ++ [line]) := by
  rw [← gathers.joined] at odd
  obtain ⟨_, held⟩ := holds_of_odd odd
  rw [held]
  exact ⟨rfl, by simp, gathers.joined line⟩

theorem Gathers.add_of_even {grouping : Grouping} {lines : List String} {line : String}
    (gathers : grouping.Gathers lines)
    (even : hasOddQuotes ("\n".intercalate (lines ++ [line])) = false) :
    grouping.add (.ok line) =
      ⟨.ok ("\n".intercalate (lines ++ [line])) :: grouping.items, none⟩ := by
  rw [← gathers.joined] at even ⊢
  exact completes_of_even even

/-! ## From blocks to items -/

private theorem foldl_staysOpen {lines : List String} (staysOpen : StaysOpen lines)
    (items : List (Except Fault String)) :
    ((lines.map .ok).foldl add ⟨items, none⟩).items = items ∧
      ((lines.map .ok).foldl add ⟨items, none⟩).Gathers lines := by
  induction lines using List.reverseRecOn with
  | nil => exact ⟨rfl, rfl⟩
  | append_singleton earlier last ih =>
      obtain ⟨earlierOpen, odd⟩ := staysOpen_append_singleton_iff.mp staysOpen
      obtain ⟨unchanged, gathers⟩ := ih earlierOpen
      obtain ⟨added, gathered⟩ := gathers.add_of_odd odd
      rw [List.map_append, List.foldl_append]
      exact ⟨added.trans unchanged, gathered⟩

theorem foldl_block {block : Block} (minimal : block.Minimal) (even : block.Even)
    (items : List (Except Fault String)) :
    block.lines.foldl add ⟨items, none⟩ = ⟨block.item :: items, none⟩ := by
  cases block with
  | entry lines =>
      rcases List.eq_nil_or_concat lines with rfl | ⟨earlier, last, rfl⟩
      · exact absurd rfl minimal.1
      · rw [List.concat_eq_append] at minimal even ⊢
        obtain ⟨unchanged, gathers⟩ :=
          foldl_staysOpen (Block.minimal_entry_iff.mp minimal) items
        rw [Block.lines, List.map_append, List.foldl_append]
        change add _ _ = _
        rw [gathers.add_of_even even, unchanged]
        rfl
  | lost dropped fault =>
      obtain ⟨unchanged, _⟩ := foldl_staysOpen minimal items
      rw [Block.lines, List.foldl_append]
      change Grouping.mk (.error fault :: _) none = _
      rw [unchanged]
      rfl

theorem foldl_blocks {blocks : List Block} (minimal : ∀ block ∈ blocks, block.Minimal)
    (even : ∀ block ∈ blocks, block.Even) (items : List (Except Fault String)) :
    (blocks.flatMap Block.lines).foldl add ⟨items, none⟩ =
      ⟨(blocks.map Block.item).reverse ++ items, none⟩ := by
  induction blocks generalizing items with
  | nil => rfl
  | cons block rest ih =>
      rw [List.flatMap_cons, List.foldl_append,
        foldl_block (minimal block List.mem_cons_self) (even block List.mem_cons_self),
        ih (fun other member => minimal other (List.mem_cons_of_mem _ member))
          (fun other member => even other (List.mem_cons_of_mem _ member))]
      simp

end Grouping

/-- The items of the prompt are those of any division of its lines. -/
theorem Groups.entriesOfLines_eq {lines : List (Except Fault String)} {blocks : List Block}
    (groups : Groups lines blocks) : entriesOfLines lines = blocks.map Block.item := by
  obtain ⟨rfl, minimal, even⟩ := groups
  rcases List.eq_nil_or_concat blocks with rfl | ⟨earlier, last, rfl⟩
  · rfl
  · rw [List.concat_eq_append] at minimal even ⊢
    rw [List.dropLast_concat] at even
    have earlierMinimal : ∀ block ∈ earlier, block.Minimal :=
      fun block member => minimal block (List.mem_append_left _ member)
    have lastMinimal : last.Minimal := minimal last (by simp)
    have read : entriesOfLines ((earlier ++ [last]).flatMap Block.lines) =
        (last.lines.foldl Grouping.add ⟨(earlier.map Block.item).reverse, none⟩).finish := by
      rw [entriesOfLines, List.flatMap_append, List.foldl_append, Grouping.empty,
        Grouping.foldl_blocks earlierMinimal even, List.append_nil, List.flatMap_singleton]
    rw [read, List.map_append]
    -- The lines may end before the last entry is closed.
    by_cases lastEven : last.Even
    · rw [Grouping.foldl_block lastMinimal lastEven]
      simp [Grouping.finish]
    · cases last with
      | lost dropped fault => exact absurd trivial lastEven
      | entry lines =>
          have staysOpen : StaysOpen lines := lastMinimal.staysOpen (eq_true_of_ne_false lastEven)
          obtain ⟨unchanged, gathers⟩ :=
            Grouping.foldl_staysOpen staysOpen (earlier.map Block.item).reverse
          rw [Block.lines, gathers.finish, unchanged, if_neg lastMinimal.1, List.reverse_reverse]
          rfl

/-! ## Dividing lines into blocks -/

structure Divided (lines : List (Except Fault String)) (blocks : List Block)
    (openLines : List String) : Prop where
  cover : blocks.flatMap Block.lines ++ openLines.map .ok = lines
  minimal : ∀ block ∈ blocks, block.Minimal
  even : ∀ block ∈ blocks, block.Even
  staysOpen : StaysOpen openLines

private theorem forall_mem_append_singleton {Holds : Block → Prop} {blocks : List Block}
    {last : Block} (all : ∀ block ∈ blocks, Holds block) (lastHolds : Holds last) :
    ∀ block ∈ blocks ++ [last], Holds block := by
  intro block member
  rcases List.mem_append.mp member with earlier | same
  · exact all block earlier
  · rw [List.mem_singleton.mp same]
    exact lastHolds

/-- A further line closes the open lines, is lost with them or joins them. -/
theorem Divided.add {lines : List (Except Fault String)} {blocks : List Block}
    {openLines : List String} (divided : Divided lines blocks openLines)
    (line : Except Fault String) :
    ∃ blocks openLines, Divided (lines ++ [line]) blocks openLines := by
  obtain ⟨rfl, minimal, even, staysOpen⟩ := divided
  cases line with
  | error fault =>
      refine ⟨blocks ++ [.lost openLines fault], [], ?_, ?_, ?_, staysOpen_nil⟩
      · simp [Block.lines]
      · exact forall_mem_append_singleton minimal staysOpen
      · exact forall_mem_append_singleton even trivial
  | ok line =>
      cases parity : hasOddQuotes ("\n".intercalate (openLines ++ [line])) with
      | false =>
          refine ⟨blocks ++ [.entry (openLines ++ [line])], [], ?_, ?_, ?_, staysOpen_nil⟩
          · simp [Block.lines]
          · exact forall_mem_append_singleton minimal (Block.minimal_entry_iff.mpr staysOpen)
          · exact forall_mem_append_singleton even parity
      | true =>
          refine ⟨blocks, openLines ++ [line], by simp, minimal, even, ?_⟩
          exact staysOpen_append_singleton_iff.mpr ⟨staysOpen, parity⟩

theorem exists_divided (lines : List (Except Fault String)) :
    ∃ blocks openLines, Divided lines blocks openLines := by
  induction lines using List.reverseRecOn with
  | nil => exact ⟨[], [], rfl, nofun, nofun, staysOpen_nil⟩
  | append_singleton earlier last ih =>
      obtain ⟨blocks, openLines, divided⟩ := ih
      exact divided.add last

theorem exists_groups (lines : List (Except Fault String)) :
    ∃ blocks, Groups lines blocks := by
  obtain ⟨blocks, openLines, rfl, minimal, even, staysOpen⟩ := exists_divided lines
  rcases List.eq_nil_or_concat openLines with rfl | ⟨earlier, last, rfl⟩
  · refine ⟨blocks, by simp, minimal, ?_⟩
    exact fun block member => even block (List.dropLast_subset _ member)
  · rw [List.concat_eq_append] at staysOpen ⊢
    refine ⟨blocks ++ [.entry (earlier ++ [last])], by simp [Block.lines], ?_, ?_⟩
    · exact forall_mem_append_singleton minimal
        (Block.minimal_entry_iff.mpr (staysOpen_append_singleton_iff.mp staysOpen).1)
    · rw [List.dropLast_concat]
      exact even

theorem entriesOfLines_eq_iff {lines items : List (Except Fault String)} :
    entriesOfLines lines = items ↔
      ∃ blocks, Groups lines blocks ∧ blocks.map Block.item = items := by
  constructor
  · intro same
    obtain ⟨blocks, groups⟩ := exists_groups lines
    exact ⟨blocks, groups, groups.entriesOfLines_eq.symm.trans same⟩
  · rintro ⟨blocks, groups, rfl⟩
    exact groups.entriesOfLines_eq

/-! ## The items of a stream -/

/-- A blank line closes nothing and opens nothing: it is an entry of its own where no entry is under
way, and a line feed more in the entry that is. -/
theorem Grouping.add_blank (grouping : Grouping) :
    match grouping.pending with
    | none => grouping.add (.ok "") = ⟨.ok "" :: grouping.items, none⟩
    | some entry =>
        ∃ odd, grouping.add (.ok "") = ⟨grouping.items, some ⟨entry.text ++ "\n", odd⟩⟩ := by
  obtain ⟨items, pending⟩ := grouping
  cases pending with
  | none =>
      have even : hasOddQuotes "" = false := by decide
      exact completes_of_even even
  | some entry =>
      have odd : hasOddQuotes (entry.text ++ "\n" ++ "") = true := by
        rw [hasOddQuotes_join, entry.odd]
        decide
      have holds : Holds ⟨items, some entry⟩ "" := holds_of_odd odd
      simpa [Holds, joined] using holds

/-- The items of a stream are those of the one division of its lines into blocks in which each line
that is not UTF-8 closes a block of its own with the open lines before it, which are lost, and every
other block is an entry that ends with the first line that makes its quotes pair up, or with the
stream. -/
theorem entries_eq_iff_groups (stream : ByteArray) (items : List (Except Fault String)) :
    (entries stream = items ↔
      ∃ lines blocks, SplitsInto stream.toList lines ∧
        Groups (lines.map fun line => decodeText ⟨line.toArray⟩) blocks ∧
        blocks.map Block.item = items) ∧
      ∀ history : List (Except Fault String),
        match (Grouping.after history).pending with
        | none => (Grouping.after history).add (.ok "") =
            ⟨.ok "" :: (Grouping.after history).items, none⟩
        | some entry => ∃ odd, (Grouping.after history).add (.ok "") =
            ⟨(Grouping.after history).items, some ⟨entry.text ++ "\n", odd⟩⟩ := by
  constructor
  · rw [entries, entriesOfLines_eq_iff, textLines]
    constructor
    · rintro ⟨blocks, groups, same⟩
      exact ⟨_, blocks, byteLines_eq_iff.mp rfl, groups, same⟩
    · rintro ⟨lines, blocks, splits, groups, same⟩
      rw [byteLines_eq_iff.mpr splits]
      exact ⟨blocks, groups, same⟩
  · exact fun history => (Grouping.after history).add_blank

end Lox

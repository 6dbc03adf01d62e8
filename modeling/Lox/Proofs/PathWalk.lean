import Lox.Files.Tree

/-!
# Paths as walks

Where a path leads, told by the walks through a tree: name by name from directory to directory. A
path is missing if a walk along it comes to a place where there is nothing.
-/

set_option autoImplicit false

namespace Lox

def StaysPut (name : String) : Prop :=
  name = "" ∨ name = "."

namespace FileTree

/-- A walk along some names. Every name stands in a directory. -/
inductive Walks (tree : FileTree) : TreePath → List String → TreePath → Prop where
  | here {spot : TreePath} : Walks tree spot [] spot
  | stay {spot target : TreePath} {name : String} {rest : List String} :
      tree.nodeAt? spot = some .directory → StaysPut name →
      Walks tree spot rest target → Walks tree spot (name :: rest) target
  | move {spot target : TreePath} {name : String} {rest : List String} :
      tree.nodeAt? spot = some .directory → ¬ StaysPut name →
      name.utf8ByteSize ≤ nameLimit →
      Walks tree (next spot name) rest target → Walks tree spot (name :: rest) target

theorem walks_nil_iff {tree : FileTree} {spot target : TreePath} :
    tree.Walks spot [] target ↔ target = spot := by
  constructor
  · intro walks
    cases walks
    rfl
  · rintro rfl
    exact .here

theorem Walks.directory {tree : FileTree} {spot target : TreePath} {name : String}
    {rest : List String} (walks : tree.Walks spot (name :: rest) target) :
    tree.nodeAt? spot = some .directory := by
  cases walks with
  | stay directory _ _ => exact directory
  | move directory _ _ _ => exact directory

section Directory

variable {tree : FileTree} {spot : TreePath} {name : String} {rest : List String}

theorem walk_cons_of_not_directory (notDirectory : tree.nodeAt? spot ≠ some .directory) :
    tree.walk spot (name :: rest) =
      if tree.nodeAt? spot = none then .ok none else .error .notDirectory := by
  rw [walk]
  split
  · next none => simp [none]
  · next file => simp [file]
  · next directory => exact absurd directory notDirectory

variable (directory : tree.nodeAt? spot = some .directory)
include directory

theorem walk_cons_of_staysPut (stays : StaysPut name) :
    tree.walk spot (name :: rest) = tree.walk spot rest := by
  rw [walk, directory]
  exact if_pos stays

theorem walk_cons_of_moves (moves : ¬ StaysPut name) :
    tree.walk spot (name :: rest) =
      if name.utf8ByteSize > nameLimit then .error .nameTooLong
      else tree.walk (next spot name) rest := by
  rw [walk, directory]
  exact if_neg moves

theorem walks_cons_of_staysPut (stays : StaysPut name) {target : TreePath} :
    tree.Walks spot (name :: rest) target ↔ tree.Walks spot rest target := by
  constructor
  · intro walks
    cases walks with
    | stay _ _ others => exact others
    | move _ moves _ _ => exact absurd stays moves
  · exact .stay directory stays

theorem walks_cons_of_moves (moves : ¬ StaysPut name) {target : TreePath} :
    tree.Walks spot (name :: rest) target ↔
      name.utf8ByteSize ≤ nameLimit ∧ tree.Walks (next spot name) rest target := by
  constructor
  · intro walks
    cases walks with
    | stay _ stays _ => exact absurd stays moves
    | move _ _ short others => exact ⟨short, others⟩
  · rintro ⟨short, others⟩
    exact .move directory moves short others

end Directory

theorem walk_eq_some_iff {tree : FileTree} {spot : TreePath} {names : List String}
    {node : FileNode} :
    tree.walk spot names = .ok (some node) ↔
      ∃ target, tree.Walks spot names target ∧ tree.nodeAt? target = some node := by
  induction names generalizing spot with
  | nil => simp [walk, walks_nil_iff]
  | cons name rest ih =>
      by_cases directory : tree.nodeAt? spot = some .directory
      · by_cases stays : StaysPut name
        · rw [walk_cons_of_staysPut directory stays, ih]
          simp only [walks_cons_of_staysPut directory stays]
        · rw [walk_cons_of_moves directory stays]
          simp only [walks_cons_of_moves directory stays]
          by_cases short : name.utf8ByteSize ≤ nameLimit
          · simp [short, Nat.not_lt.mpr short, ih]
          · simp [short, Nat.lt_of_not_le short]
      · rw [walk_cons_of_not_directory directory]
        constructor
        · intro found
          split at found <;> cases found
        · rintro ⟨target, walks, _⟩
          exact absurd walks.directory directory

/-- A walk along some names, or along the first of them, that comes to nothing. -/
def Misses (tree : FileTree) (spot : TreePath) (names : List String) : Prop :=
  ∃ before after target, names = before ++ after ∧ tree.Walks spot before target ∧
    tree.nodeAt? target = none

theorem misses_cons_iff {tree : FileTree} {spot : TreePath} {name : String}
    {rest : List String} :
    tree.Misses spot (name :: rest) ↔
      tree.nodeAt? spot = none ∨
        ∃ before after target, rest = before ++ after ∧
          tree.Walks spot (name :: before) target ∧ tree.nodeAt? target = none := by
  constructor
  · rintro ⟨before, after, target, parts, walks, nothing⟩
    cases before with
    | nil =>
        obtain rfl := walks_nil_iff.mp walks
        exact .inl nothing
    | cons first before =>
        obtain ⟨rfl, others⟩ := List.cons.inj parts
        exact .inr ⟨before, after, target, others, walks, nothing⟩
  · rintro (nothing | ⟨before, after, target, rfl, walks, nothing⟩)
    · exact ⟨[], name :: rest, spot, rfl, .here, nothing⟩
    · exact ⟨name :: before, after, target, rfl, walks, nothing⟩

theorem misses_nil_iff {tree : FileTree} {spot : TreePath} :
    tree.Misses spot [] ↔ tree.nodeAt? spot = none := by
  constructor
  · rintro ⟨before, after, target, parts, walks, nothing⟩
    obtain ⟨rfl, rfl⟩ := List.append_eq_nil_iff.mp parts.symm
    obtain rfl := walks_nil_iff.mp walks
    exact nothing
  · intro nothing
    exact ⟨[], [], spot, rfl, .here, nothing⟩

theorem walk_eq_none_iff {tree : FileTree} {spot : TreePath} {names : List String} :
    tree.walk spot names = .ok none ↔ tree.Misses spot names := by
  induction names generalizing spot with
  | nil => simp [walk, misses_nil_iff]
  | cons name rest ih =>
      rw [misses_cons_iff]
      by_cases directory : tree.nodeAt? spot = some .directory
      · by_cases stays : StaysPut name
        · rw [walk_cons_of_staysPut directory stays, ih]
          simp [walks_cons_of_staysPut directory stays, directory, Misses]
        · rw [walk_cons_of_moves directory stays]
          simp only [walks_cons_of_moves directory stays]
          by_cases short : name.utf8ByteSize ≤ nameLimit
          · simp [short, Nat.not_lt.mpr short, ih, directory, Misses]
          · simp [short, Nat.lt_of_not_le short, directory]
      · rw [walk_cons_of_not_directory directory]
        have stuck : ∀ before target, ¬ tree.Walks spot (name :: before) target :=
          fun _ _ walks => directory walks.directory
        simp [stuck]

def Leads (tree : FileTree) (path : String) (node : FileNode) : Prop :=
  path ≠ "" ∧ path.utf8ByteSize ≤ pathLimit ∧
    ∃ target, tree.Walks (tree.start path) (pathNames path) target ∧
      tree.nodeAt? target = some node

/-- A path does not exist: it is empty, or a walk along it comes to nothing. -/
def Missing (tree : FileTree) (path : String) : Prop :=
  path = "" ∨ path.utf8ByteSize ≤ pathLimit ∧ tree.Misses (tree.start path) (pathNames path)

theorem find_eq_some_iff {tree : FileTree} {path : String} {node : FileNode} :
    tree.find path = .ok (some node) ↔ tree.Leads path node := by
  rw [Leads, ← walk_eq_some_iff, find]
  split
  · next empty => simp [empty]
  · next nonempty =>
    split
    · next long => simp [Nat.not_le.mpr long]
    · next short => simp [nonempty, Nat.not_lt.mp short]

theorem find_eq_none_iff {tree : FileTree} {path : String} :
    tree.find path = .ok none ↔ tree.Missing path := by
  rw [Missing, ← walk_eq_none_iff, find]
  split
  · next empty => simp [empty]
  · next nonempty =>
    split
    · next long => simp [nonempty, Nat.not_le.mpr long]
    · next short => simp [nonempty, Nat.not_lt.mp short]

/-! ## As a file system -/

theorem exists?_eq_false_iff {tree : FileTree} {path : String} :
    tree.fileSystem.exists? path = .ok false ↔ tree.Missing path := by
  simp only [← find_eq_none_iff, fileSystem]
  cases tree.find path with
  | error fault => simp [Except.map]
  | ok found => cases found <;> simp [Except.map]

theorem exists?_eq_true_iff {tree : FileTree} {path : String} :
    tree.fileSystem.exists? path = .ok true ↔ ∃ node, tree.Leads path node := by
  simp only [← find_eq_some_iff, fileSystem]
  cases tree.find path with
  | error fault => simp [Except.map]
  | ok found => cases found <;> simp [Except.map]

theorem readBytes_eq_ok_iff {tree : FileTree} {path : String} {content : ByteArray} :
    tree.fileSystem.readBytes path = .ok content ↔ tree.Leads path (.file content) := by
  simp only [← find_eq_some_iff, fileSystem]
  cases tree.find path with
  | error fault => simp
  | ok found =>
      cases found with
      | none => simp
      | some node => cases node <;> simp

end FileTree

end Lox

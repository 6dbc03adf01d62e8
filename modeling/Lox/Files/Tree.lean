import Lox.Files.System

/-!
# File trees

A file system of directories and plain files, all of them open to the program. A path is walked name
by name, from the root or from the working directory.
-/

set_option autoImplicit false

namespace Lox

/-- A path from the root down, without empty, single dot and double dot names. -/
abbrev TreePath : Type :=
  List String

/-- All directories and files from the root down. A later file of a name stands in place of an
earlier one, and a directory in place of a file. -/
structure FileTree where
  workingDirectory : TreePath
  directories : List TreePath
  files : List (TreePath × ByteArray)

inductive FileNode where
  | directory
  | file (content : ByteArray)

namespace Fault

def missing : Fault :=
  .system "No such file or directory (os error 2)"

def notDirectory : Fault :=
  .system "Not a directory (os error 20)"

def isDirectory : Fault :=
  .system "Is a directory (os error 21)"

def nameTooLong : Fault :=
  .system "File name too long (os error 36)"

end Fault

namespace FileTree

def file? (tree : FileTree) (path : TreePath) : Option ByteArray :=
  (tree.files.reverse.find? (·.1 = path)).map (·.2)

def isDirectory (tree : FileTree) (path : TreePath) : Bool :=
  -- what lies in a directory need not be named beside it
  (tree.workingDirectory :: tree.directories).any (path.isPrefixOf ·) ||
    tree.files.any fun file => path.isPrefixOf file.1 && path != file.1

def node? (tree : FileTree) (path : TreePath) : Option FileNode :=
  if tree.isDirectory path then some .directory
  else (tree.file? path).map .file

end FileTree

def nameLimit : Nat :=
  255

def pathLimit : Nat :=
  4095

def pathNames (path : String) : List String :=
  -- slashes next to each other, and one at either end, have empty names beside them
  (path.toList.splitOn '/').map String.ofList

namespace FileTree

def nodeAt? (tree : FileTree) (spot : TreePath) : Option FileNode :=
  -- a walk holds a place with its last name first
  tree.node? spot.reverse

def start (tree : FileTree) (path : String) : TreePath :=
  if path.toList.head? = some '/' then [] else tree.workingDirectory.reverse

def next (spot : TreePath) (name : String) : TreePath :=
  -- the root is its own parent
  if name = ".." then spot.tail else name :: spot

def walk (tree : FileTree) (spot : TreePath) : List String → Except Fault (Option FileNode)
  | [] => .ok (tree.nodeAt? spot)
  | name :: rest =>
      -- every name needs a directory to stand in, also the empty one that a slash at the end leaves
      match tree.nodeAt? spot with
      | none => .ok none
      | some (.file _) => .error .notDirectory
      | some .directory =>
          if name = "" ∨ name = "." then tree.walk spot rest
          else if name.utf8ByteSize > nameLimit then .error .nameTooLong
          else tree.walk (next spot name) rest

/-- Finds what a path leads to: nothing if it does not exist, and a fault if it cannot be told. -/
def find (tree : FileTree) (path : String) : Except Fault (Option FileNode) :=
  if path = "" then .ok none
  else if path.utf8ByteSize > pathLimit then .error .nameTooLong
  else tree.walk (tree.start path) (pathNames path)

def fileSystem (tree : FileTree) : FileSystem where
  exists? path := (tree.find path).map Option.isSome
  readBytes path :=
    match tree.find path with
    | .error fault => .error fault
    | .ok none => .error .missing
    | .ok (some .directory) => .error .isDirectory
    | .ok (some (.file content)) => .ok content

end FileTree

end Lox

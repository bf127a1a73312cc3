import SimTerm.Failure
import SimTerm.Node
import SimTerm.Path

/-!
# Editing the tree

Every edit is a function from a tree to the tree after it, or to the reason why it is refused. An
edit names a node by its segments and changes nothing that is not at that node or below it.

The reasons have an order, and the first that applies is given: for a write, that the root is named,
that the parent is no directory, that the node is a directory; for a removed directory, that there
is none, that it is a file, that it has entries, that it is the root; for a copy, that there is no
source, that the root is the destination, that the parent of the destination is no directory.
-/

namespace SimTerm.Node

/-- The names that lead to the parent, and the last name; the root has neither. -/
def splitLast? (segs : List String) : Option (List String × String) :=
  segs.getLast?.map fun last => (segs.dropLast, last)

/-- Replace the entries of the directory at a path. -/
def editEntries (root : Node) (path : List String)
    (edit : Entries Node → Except FileError (Entries Node)) : Except FileError Node :=
  match path, root with
  | _, .file .. => .error .noSuchDirectory
  | [], .dir entries s => (edit entries).map (.dir · s)
  | name :: names, .dir entries s =>
    match Entries.get? name entries with
    | some n =>
      (editEntries n names edit).map fun n => .dir (Entries.insert name n entries) s
    | none => .error .noSuchDirectory

/-- Replace the node at a path, if there is one. -/
def modifyAt (root : Node) (path : List String) (change : Node → Node) : Node :=
  match path, root with
  | [], n => change n
  | _ :: _, .file content s => .file content s
  | name :: names, .dir entries s =>
    match Entries.get? name entries with
    | some n => .dir (Entries.insert name (modifyAt n names change) entries) s
    | none => .dir entries s

/-- Write a file. One that is there keeps the moment it was created; a directory is not
overwritten. -/
def putFile (now : Millis) (segs : List String) (content : String) (root : Node) :
    Except FileError Node :=
  match splitLast? segs with
  | none => .error .isADirectory
  | some (parent, name) =>
    root.editEntries parent fun entries =>
      match Entries.get? name entries with
      | some (.dir ..) => .error .isADirectory
      | some (.file _ s) =>
        .ok (Entries.insert name (.file content { s with modified := now }) entries)
      | none => .ok (Entries.insert name (newFile now content) entries)

/-- Make an empty directory where nothing is yet. -/
def makeDir (now : Millis) (segs : List String) (root : Node) : Except FileError Node :=
  match splitLast? segs with
  | none => .error .alreadyExists
  | some (parent, name) =>
    root.editEntries parent fun entries =>
      match Entries.get? name entries with
      | some _ => .error .alreadyExists
      | none => .ok (Entries.insert name (newDir now) entries)

/-- Remove the node at a path with all below it; the root is in no directory. -/
def unlink (path : String) (root : Node) : Except FileError Node :=
  match splitLast? (Path.segments path) with
  | none => .error (.invalidPath path)
  | some (parent, name) => root.editEntries parent fun entries => .ok (Entries.erase name entries)

/-- Remove a directory without entries. -/
def removeDir (path : String) (root : Node) : Except FileError Node :=
  match root.find? (Path.segments path) with
  | none => .error .noSuchDirectory
  | some (.file ..) => .error .notADirectory
  | some (.dir (_ :: _) _) => .error .notEmpty
  | some (.dir [] _) =>
    if Path.segments path = [] then .error .removeRoot else unlink path root

/-- Remove a file. -/
def removeFile (path : String) (root : Node) : Except FileError Node :=
  match root.find? (Path.segments path) with
  | none => .error .noSuchFile
  | some (.dir ..) => .error .isADirectory
  | some (.file ..) => unlink path root

/-- Mark what is at the path as modified, or write an empty file. -/
def touchAt (now : Millis) (segs : List String) (root : Node) : Except FileError Node :=
  match root.find? segs with
  | some _ => .ok (root.modifyAt segs (touch now))
  | none => putFile now segs "" root

/-- Put a copy of what is at `source` in the place of whatever is at the path `dest`. -/
def copyTo (now : Millis) (source : List String) (dest : String) (root : Node) :
    Except FileError Node :=
  match root.find? source with
  | none => .error .noSuchSource
  | some n =>
    match splitLast? (Path.segments dest) with
    | none => .error (.invalidPath dest)
    | some (parent, name) =>
      (root.editEntries parent fun entries =>
        .ok (Entries.insert name (n.freshCopy now) entries)).mapError fun _ => .noSuchDestination

end SimTerm.Node

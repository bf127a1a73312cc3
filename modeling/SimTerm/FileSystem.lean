import SimTerm.Bookmarks
import SimTerm.Node.Edit
import SimTerm.Node.Layout
import SimTerm.Node.Walk
import SimTerm.Storage
import SimTerm.Text.Checksum

/-!
# The file system

A tree and a table of bookmarks, held in memory and written through to a storage: each change is
made in memory and stores the whole tree or the whole table. What cannot be stored is undone in
memory, the tree by going back to the one before, the table by putting back what the one name stood
for. Moving is the one operation made of two changes: the copy is stored before the source is
removed, so whatever fails, nothing is lost.

Opening reads what is stored. Where no readable tree is stored, a default tree is made and stored;
where no readable table is stored, the table is empty. Paths are given as text and mean their
segments.
-/

namespace SimTerm

/-- How the default tree looks. -/
structure TreeOptions where
  user : String := "guest"
  /-- The default tree is a root without entries. -/
  bare : Bool := false
deriving DecidableEq, Repr

/-- A tree and a table of bookmarks over a storage, at a moment of its clock. -/
structure FileSystem where
  root : Node
  bookmarks : Bookmarks
  storage : Storage
  now : Millis
  options : TreeOptions

/-- The key of the stored tree. -/
def treeKey : String := "cedar:fs"

/-- The key of the stored bookmarks. -/
def bookmarksKey : String := "cedar:bookmarks"

/-- The tree of a new file system: a home for the user and a place for applications. -/
def TreeOptions.defaultTree (o : TreeOptions) (now : Millis) : Node :=
  if o.bare then Node.newDir now
  else
    .dir
      [("apps", Node.newDir now),
        ("home", .dir [(o.user, Node.newDir now)] (Node.stampedAt now))]
      (Node.stampedAt now)

namespace FileSystem

/-! ## Opening -/

/-- What a storage answered about the tree, as a tree; only a directory can be a root. -/
def treeOfAnswer? : Except Failure (Option String) → Option Node
  | .ok (some text) => (Node.decode? text).filter Node.isDir
  | _ => none

/-- What a storage answered about the bookmarks, as a table. -/
def bookmarksOfAnswer : Except Failure (Option String) → Bookmarks
  | .ok (some text) => (Bookmarks.decode? text).getD []
  | _ => []

/-! ## Storing -/

/-- Store the tree that is in memory. -/
def storeTree (fs : FileSystem) : Except Failure Unit × FileSystem :=
  let (result, storage) := fs.storage.save treeKey fs.root.encode
  (result, { fs with storage })

/-- Store the bookmarks that are in memory. -/
def storeBookmarks (fs : FileSystem) : Except Failure Unit × FileSystem :=
  let (result, storage) := fs.storage.save bookmarksKey fs.bookmarks.encode
  (result, { fs with storage })

/-- Open what a storage holds; the default tree is stored if none is found, refused or not. -/
def «open» (storage : Storage) (now : Millis) (options : TreeOptions) : FileSystem :=
  let (marks, storage) := storage.load bookmarksKey
  let (tree, storage) := storage.load treeKey
  let bookmarks := bookmarksOfAnswer marks
  match treeOfAnswer? tree with
  | some root => { root, bookmarks, storage, now, options }
  | none => (storeTree { root := options.defaultTree now, bookmarks, storage, now, options }).2

/-! ## Reading -/

/-- The node at a path. -/
def node? (fs : FileSystem) (path : String) : Option Node :=
  fs.root.find? (Path.segments path)

/-- What is known of the node at a path. -/
def info? (fs : FileSystem) (path : String) : Option Info :=
  (fs.node? path).map Node.info

/-- The names and kinds of the entries of a directory. -/
def list? (fs : FileSystem) (path : String) : Option (List (String × Kind)) :=
  ((fs.node? path).bind Node.entries?).map fun es => es.map fun (name, n) => (name, n.kind)

/-- The content of a file. -/
def read? (fs : FileSystem) (path : String) : Option String :=
  (fs.node? path).bind Node.content?

/-- The path written from its segments. -/
def canonical (path : String) : String :=
  Path.ofSegments (Path.segments path)

/-- The paths at or below a path with the last name `name`. -/
def find (fs : FileSystem) (name path : String) : List String :=
  ((fs.node? path).map (Node.named name (canonical path))).getD []

/-- The paths of the files at or below a path that contain `text`. -/
def seek (fs : FileSystem) (text path : String) : List String :=
  ((fs.node? path).map (Node.holding text (canonical path))).getD []

/-- The indented list of what is below a path. -/
def outline? (fs : FileSystem) (path : String) : Option (List String) :=
  (fs.node? path).map (Node.outline path)

/-- The sizes of all files at or below a path, added up. -/
def totalSize (fs : FileSystem) (path : String) : Nat :=
  ((fs.node? path).map Node.totalSize).getD 0

/-- The checksum of a file. -/
def checksum? (fs : FileSystem) (path : String) : Option String :=
  (fs.read? path).map Text.checksum

/-- The path that an input means for a user who stands in `cwd`. -/
def resolve (fs : FileSystem) (user cwd input : String) : String :=
  Path.resolve fs.bookmarks user cwd input

/-! ## Changing the tree -/

/-- Change the tree and store it. If it cannot be stored, the tree is again the one before. -/
def commit (fs : FileSystem) (edit : Node → Except FileError Node) :
    Except Failure Unit × FileSystem :=
  match edit fs.root with
  | .error cause => (.error (.file cause), fs)
  | .ok root =>
    match storeTree { fs with root } with
    | (.ok (), changed) => (.ok (), changed)
    | (.error failure, changed) => (.error failure, { changed with root := fs.root })

/-- Write a file, new or in the place of another. -/
def writeFile (fs : FileSystem) (path content : String) : Except Failure Unit × FileSystem :=
  fs.commit (Node.putFile fs.now (Path.segments path) content)

/-- Write an empty file. -/
def makeFile (fs : FileSystem) (path : String) : Except Failure Unit × FileSystem :=
  fs.writeFile path ""

/-- Make a directory. -/
def makeDir (fs : FileSystem) (path : String) : Except Failure Unit × FileSystem :=
  fs.commit (Node.makeDir fs.now (Path.segments path))

/-- Remove an empty directory. -/
def removeDir (fs : FileSystem) (path : String) : Except Failure Unit × FileSystem :=
  fs.commit (Node.removeDir path)

/-- Remove a file. -/
def removeFile (fs : FileSystem) (path : String) : Except Failure Unit × FileSystem :=
  fs.commit (Node.removeFile path)

/-- Mark a node as modified, or write an empty file. -/
def touch (fs : FileSystem) (path : String) : Except Failure Unit × FileSystem :=
  fs.commit (Node.touchAt fs.now (Path.segments path))

/-- Copy a file or a directory with all below it. -/
def copy (fs : FileSystem) (source dest : String) : Except Failure Unit × FileSystem :=
  fs.commit (Node.copyTo fs.now (Path.segments source) dest)

/-- Move a node: copy it, then remove it where it was. A node stays where it is when it is moved to
itself, and cannot be moved below itself or onto a directory it is in. -/
def move (fs : FileSystem) (source dest : String) : Except Failure Unit × FileSystem :=
  let src := Path.segments source
  let dst := Path.segments dest
  if src = dst then
    match fs.root.find? src with
    | some _ => (.ok (), fs)
    | none => (.error (.file .noSuchSource), fs)
  else if src.isPrefixOf dst || dst.isPrefixOf src then
    (.error (.file (.invalidPath dest)), fs)
  else
    match fs.copy source dest with
    | (.ok (), fs) => fs.commit (Node.unlink source)
    | (.error failure, fs) => (.error failure, fs)

/-! ## Changing the bookmarks -/

/-- Store the bookmarks that are in memory, or undo what was done to them. -/
def storeOrUndo (fs : FileSystem) (undo : Bookmarks → Bookmarks) :
    Except Failure Unit × FileSystem :=
  match fs.storeBookmarks with
  | (.ok (), stored) => (.ok (), stored)
  | (.error failure, stored) =>
    (.error failure, { stored with bookmarks := undo stored.bookmarks })

/-- Let a name stand for a path. If that cannot be stored, it stands for what it stood for before,
or for nothing. -/
def addBookmark (fs : FileSystem) (name path : String) : Except Failure Unit × FileSystem :=
  storeOrUndo { fs with bookmarks := fs.bookmarks.insert name path } fun marks =>
    match fs.bookmarks.get? name with
    | some old => marks.insert name old
    | none => marks.erase name

/-- Let a name stand for nothing. If that cannot be stored, it stands for what it stood for
before. -/
def removeBookmark (fs : FileSystem) (name : String) : Except Failure Unit × FileSystem :=
  match fs.bookmarks.get? name with
  | none => fs.storeBookmarks
  | some old => storeOrUndo { fs with bookmarks := fs.bookmarks.erase name } (·.insert name old)

/-! ## Starting over -/

/-- Forget everything: the default tree, no bookmarks, and neither of them stored. Both removals are
tried, and the first refusal is told. -/
def reset (fs : FileSystem) : Except Failure Unit × FileSystem :=
  let (tree, storage) := fs.storage.remove treeKey
  let (marks, storage) := storage.remove bookmarksKey
  let result :=
    match tree with
    | .ok () => marks
    | .error failure => .error failure
  (result, { fs with root := fs.options.defaultTree fs.now, bookmarks := [], storage })

end FileSystem

end SimTerm

import SimTerm.FileSystem
import SimTerm.Proofs.Node.Order
import SimTerm.Proofs.Storage

/-!
# Committing a change

A change of the tree or of the bookmarks is made in memory, stored, and undone in memory if it could
not be stored. `commit_cases`, `addBookmark_cases` and `removeBookmark_cases` say everything that
can come of it: nothing but one more refused call, or the change in memory and in the storage.
-/

namespace SimTerm

theorem treeKey_ne_bookmarksKey : treeKey ≠ bookmarksKey := by
  decide

namespace FileSystem

/-! ## Committing -/

/-- The file system whose tree is stored after a change. -/
def withTree (fs : FileSystem) (root : Node) : FileSystem :=
  { fs with root, storage := fs.storage.saved treeKey root.encode }

/-- The file system whose bookmarks are stored after a change. -/
def withBookmarks (fs : FileSystem) (bookmarks : Bookmarks) : FileSystem :=
  { fs with bookmarks, storage := fs.storage.saved bookmarksKey bookmarks.encode }

/-- The file system after a save that was refused. -/
def refused (fs : FileSystem) : FileSystem :=
  { fs with storage := fs.storage.counted .save }

/-- Everything that storing the tree in memory can do. -/
theorem storeTree_cases (fs : FileSystem) :
    (∃ words, fs.storage.refused? .save treeKey = some words ∧
        fs.storeTree = (.error (.storage words), fs.refused)) ∨
      fs.storage.refused? .save treeKey = none ∧ fs.storeTree = (.ok (), fs.withTree fs.root) := by
  cases hsave : fs.storage.refused? .save treeKey with
  | some words =>
    refine Or.inl ⟨words, rfl, ?_⟩
    simp only [storeTree, Storage.save_of_refused hsave, refused]
  | none =>
    refine Or.inr ⟨rfl, ?_⟩
    simp only [storeTree, Storage.save_of_not_refused hsave, withTree]

/-- An edit that is refused is told, and nothing is stored. -/
theorem commit_of_error {fs : FileSystem} {edit : Node → Except FileError Node} {cause : FileError}
    (h : edit fs.root = .error cause) : fs.commit edit = (.error (.file cause), fs) := by
  rw [commit, h]

/-- A tree that cannot be stored is taken back. -/
theorem commit_of_refused {fs : FileSystem} {edit : Node → Except FileError Node} {root : Node}
    {words : String} (h : edit fs.root = .ok root)
    (hsave : fs.storage.refused? .save treeKey = some words) :
    fs.commit edit = (.error (.storage words), fs.refused) := by
  simp only [commit, h, storeTree, Storage.save_of_refused hsave, refused]

/-- An edit that is possible and can be stored is made. -/
theorem commit_of_saved {fs : FileSystem} {edit : Node → Except FileError Node} {root : Node}
    (h : edit fs.root = .ok root) (hsave : fs.storage.refused? .save treeKey = none) :
    fs.commit edit = (.ok (), fs.withTree root) := by
  simp only [commit, h, storeTree, Storage.save_of_not_refused hsave, withTree]

/-- Everything that committing an edit can do. -/
theorem commit_cases (fs : FileSystem) (edit : Node → Except FileError Node) :
    (∃ cause, edit fs.root = .error cause ∧ fs.commit edit = (.error (.file cause), fs)) ∨
      (∃ words, fs.storage.refused? .save treeKey = some words ∧
        fs.commit edit = (.error (.storage words), fs.refused)) ∨
      (∃ root, edit fs.root = .ok root ∧ fs.commit edit = (.ok (), fs.withTree root)) := by
  cases hedit : edit fs.root with
  | error cause => exact Or.inl ⟨cause, rfl, commit_of_error hedit⟩
  | ok root =>
    cases hsave : fs.storage.refused? .save treeKey with
    | some words => exact Or.inr (Or.inl ⟨words, rfl, commit_of_refused hedit hsave⟩)
    | none => exact Or.inr (Or.inr ⟨root, rfl, commit_of_saved hedit hsave⟩)

/-- Bookmarks that cannot be stored are still in memory. -/
theorem storeBookmarks_of_refused {fs : FileSystem} {words : String}
    (h : fs.storage.refused? .save bookmarksKey = some words) :
    fs.storeBookmarks = (.error (.storage words), fs.refused) := by
  simp only [storeBookmarks, Storage.save_of_refused h, refused]

/-- Bookmarks are stored as they are in memory. -/
theorem storeBookmarks_of_saved {fs : FileSystem}
    (h : fs.storage.refused? .save bookmarksKey = none) :
    fs.storeBookmarks = (.ok (), fs.withBookmarks fs.bookmarks) := by
  simp only [storeBookmarks, Storage.save_of_not_refused h, withBookmarks]

/-- Storing a changed table either keeps the change or takes it back. -/
theorem storeOrUndo_cases {fs : FileSystem} {marks : Bookmarks} {undo : Bookmarks → Bookmarks}
    (hundo : undo marks = fs.bookmarks) :
    (∃ words, fs.storage.refused? .save bookmarksKey = some words ∧
      storeOrUndo { fs with bookmarks := marks } undo = (.error (.storage words), fs.refused)) ∨
      storeOrUndo { fs with bookmarks := marks } undo = (.ok (), fs.withBookmarks marks) := by
  cases hsave : fs.storage.refused? .save bookmarksKey with
  | some words =>
    refine Or.inl ⟨words, rfl, ?_⟩
    have hstore : storeBookmarks { fs with bookmarks := marks } =
        (.error (.storage words), refused { fs with bookmarks := marks }) :=
      storeBookmarks_of_refused hsave
    simp only [storeOrUndo, hstore, refused, hundo]
  | none =>
    refine Or.inr ?_
    have hstore : storeBookmarks { fs with bookmarks := marks } =
        (.ok (), withBookmarks { fs with bookmarks := marks } marks) :=
      storeBookmarks_of_saved hsave
    simp only [storeOrUndo, hstore, withBookmarks]

/-- Everything that a new bookmark can do; a refused one is taken back exactly. -/
theorem addBookmark_cases {fs : FileSystem} (hs : fs.bookmarks.Sorted) (name path : String) :
    (∃ words, fs.storage.refused? .save bookmarksKey = some words ∧
      fs.addBookmark name path = (.error (.storage words), fs.refused)) ∨
      fs.addBookmark name path = (.ok (), fs.withBookmarks (fs.bookmarks.insert name path)) := by
  refine storeOrUndo_cases ?_
  cases hname : fs.bookmarks.get? name with
  | some old => exact Entries.insert_insert_of_get? hs hname
  | none => exact Entries.erase_insert hname

/-- Everything that a removed bookmark can do; a refused removal is taken back exactly. -/
theorem removeBookmark_cases {fs : FileSystem} (hs : fs.bookmarks.Sorted) (name : String) :
    (∃ words, fs.storage.refused? .save bookmarksKey = some words ∧
      fs.removeBookmark name = (.error (.storage words), fs.refused)) ∨
      fs.removeBookmark name = (.ok (), fs.withBookmarks (fs.bookmarks.erase name)) := by
  cases hname : fs.bookmarks.get? name with
  | some old =>
    simp only [removeBookmark, hname]
    exact storeOrUndo_cases (Entries.insert_erase_of_get? hs hname)
  | none =>
    simp only [removeBookmark, hname, Entries.erase_of_get?_eq_none hname]
    cases hsave : fs.storage.refused? .save bookmarksKey with
    | some words => exact Or.inl ⟨words, rfl, storeBookmarks_of_refused hsave⟩
    | none => exact Or.inr (storeBookmarks_of_saved hsave)

end FileSystem

end SimTerm

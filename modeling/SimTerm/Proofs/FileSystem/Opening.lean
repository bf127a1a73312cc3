import SimTerm.Proofs.FileSystem.Commit

/-!
# Opening a file system

Opening asks a storage for two texts, which changes nothing but the count of its calls, and takes a
tree and a table from the answers. Only where no tree can be taken is something saved.
-/

namespace SimTerm.FileSystem

/-- What a storage answers about the bookmarks when it is opened. -/
def bookmarksAnswer (s : Storage) : Except Failure (Option String) :=
  (s.load bookmarksKey).1

/-- What a storage answers about the tree when it is opened. -/
def treeAnswer (s : Storage) : Except Failure (Option String) :=
  ((s.load bookmarksKey).2.load treeKey).1

/-- The storage after it was asked for both texts. -/
def asked (s : Storage) : Storage :=
  ((s.load bookmarksKey).2.load treeKey).2

/-- Asking for the two texts writes nothing. -/
@[simp] theorem texts_asked (s : Storage) : (asked s).texts = s.texts := by
  simp [asked]

@[simp] theorem journal_asked (s : Storage) : (asked s).journal = s.journal := by
  simp [asked]

@[simp] theorem refusal_asked (s : Storage) : (asked s).refusal = s.refusal := by
  simp [asked]

theorem text?_asked (s : Storage) (key : String) : (asked s).text? key = s.text? key := by
  rw [Storage.text?, texts_asked, Storage.text?]

/-- The tree that is taken when none is stored. -/
def unstored (s : Storage) (now : Millis) (options : TreeOptions) : FileSystem :=
  { root := options.defaultTree now, bookmarks := bookmarksOfAnswer (bookmarksAnswer s)
    storage := asked s, now, options }

/-- Where a readable tree is stored, opening reads it and stores nothing. -/
theorem open_of_tree {s : Storage} {root : Node} (h : treeOfAnswer? (treeAnswer s) = some root)
    (now : Millis) (options : TreeOptions) :
    FileSystem.open s now options =
      { root, bookmarks := bookmarksOfAnswer (bookmarksAnswer s), storage := asked s, now
        options } := by
  unfold treeAnswer at h
  simp only [FileSystem.open, h, bookmarksAnswer, asked]

/-- Where no readable tree is stored, opening makes the default tree and tries to store it. -/
theorem open_of_no_tree {s : Storage} (h : treeOfAnswer? (treeAnswer s) = none) (now : Millis)
    (options : TreeOptions) :
    FileSystem.open s now options = (unstored s now options).storeTree.2 := by
  unfold treeAnswer at h
  simp only [FileSystem.open, h, unstored, bookmarksAnswer, asked]

/-- Opening takes the bookmarks that the storage answers with, and none for a refusal. -/
theorem bookmarks_open (s : Storage) (now : Millis) (options : TreeOptions) :
    (FileSystem.open s now options).bookmarks = bookmarksOfAnswer (bookmarksAnswer s) := by
  cases h : treeOfAnswer? (treeAnswer s) with
  | some root => rw [open_of_tree h]
  | none =>
    rw [open_of_no_tree h]
    rfl

theorem options_open (s : Storage) (now : Millis) (options : TreeOptions) :
    (FileSystem.open s now options).options = options := by
  cases htree : treeOfAnswer? (treeAnswer s) with
  | some root => rw [open_of_tree htree]
  | none =>
    rw [open_of_no_tree htree]
    rfl

theorem now_open (s : Storage) (now : Millis) (options : TreeOptions) :
    (FileSystem.open s now options).now = now := by
  cases htree : treeOfAnswer? (treeAnswer s) with
  | some root => rw [open_of_tree htree]
  | none =>
    rw [open_of_no_tree htree]
    rfl

/-- The tree that was taken from an answer is the one that is stored. -/
theorem exists_text_of_treeOfAnswer? {s : Storage} {root : Node}
    (h : treeOfAnswer? (treeAnswer s) = some root) :
    ∃ text, s.text? treeKey = some text ∧ Node.decode? text = some root := by
  rw [treeAnswer, Storage.storage_load] at h
  cases hrefused : (s.counted .load).refused? .load treeKey with
  | some words =>
    rw [Storage.load_of_refused hrefused] at h
    cases h
  | none =>
    rw [Storage.load_of_not_refused hrefused, Storage.text?_counted] at h
    cases htext : s.text? treeKey with
    | none =>
      rw [htext] at h
      cases h
    | some text =>
      rw [htext] at h
      exact ⟨text, rfl, (Option.filter_eq_some_iff.1 h).1⟩

/-- Where no tree is stored, the default tree is taken, whatever the storage refuses. -/
theorem root_open_of_text?_eq_none {s : Storage} (h : s.text? treeKey = none) (now : Millis)
    (options : TreeOptions) :
    (FileSystem.open s now options).root = options.defaultTree now := by
  cases htree : treeOfAnswer? (treeAnswer s) with
  | some root =>
    obtain ⟨text, htext, -⟩ := exists_text_of_treeOfAnswer? htree
    cases h.symm.trans htext
  | none =>
    rw [open_of_no_tree htree]
    rfl

/-! ## What is opened is in order -/

/-- A table that is read from a text is in order, whatever the order in the text. -/
theorem decode?_sorted {text : String} {marks : Bookmarks}
    (h : Bookmarks.decode? text = some marks) : marks.Sorted := by
  unfold Bookmarks.decode? at h
  split at h
  · obtain ⟨pairs, -, rfl⟩ := Option.map_eq_some_iff.1 h
    exact Entries.Sorted.ofList pairs
  · cases h

/-- A table that a storage answered with is sorted. -/
theorem bookmarksOfAnswer_sorted (answer : Except Failure (Option String)) :
    (bookmarksOfAnswer answer).Sorted := by
  unfold bookmarksOfAnswer
  split
  · next text =>
    cases hmarks : Bookmarks.decode? text with
    | none => exact Entries.sorted_nil
    | some marks => exact decode?_sorted hmarks
  · exact Entries.sorted_nil

/-- The bookmarks are in order after opening, whatever the storage holds. -/
theorem open_bookmarks_sorted (s : Storage) (now : Millis) (options : TreeOptions) :
    (FileSystem.open s now options).bookmarks.Sorted := by
  rw [bookmarks_open]
  exact bookmarksOfAnswer_sorted _

/-- A tree that a storage answered with is one. -/
theorem treeOfAnswer?_isTree {answer : Except Failure (Option String)} {root : Node}
    (h : treeOfAnswer? answer = some root) : root.IsTree := by
  unfold treeOfAnswer? at h
  split at h
  · obtain ⟨hread, hdir⟩ := Option.filter_eq_some_iff.1 h
    exact ⟨hdir, Node.decode?_ordered hread⟩
  · cases h

/-- The default tree is a directory in order. -/
theorem defaultTree_isTree (options : TreeOptions) (now : Millis) :
    (options.defaultTree now).IsTree := by
  have hnew : (Node.newDir now).Ordered := (Node.newDir_isTree now).ordered
  unfold TreeOptions.defaultTree
  split
  · exact Node.newDir_isTree now
  · have hhome : Node.IsTable [(options.user, Node.newDir now)] :=
      Node.isTable_nil.insert hnew options.user
    have hboth : Node.IsTable (Entries.insert "apps" (Node.newDir now)
        [("home", .dir [(options.user, Node.newDir now)] (Node.stampedAt now))]) :=
      (Node.isTable_nil.insert (hhome.dir _).ordered "home").insert hnew "apps"
    exact hboth.dir _

/-- The root is a directory in order after opening, whatever the storage holds. -/
theorem open_isTree (s : Storage) (now : Millis) (options : TreeOptions) :
    (FileSystem.open s now options).root.IsTree := by
  cases h : treeOfAnswer? (treeAnswer s) with
  | some root =>
    rw [open_of_tree h]
    exact treeOfAnswer?_isTree h
  | none =>
    rw [open_of_no_tree h]
    exact defaultTree_isTree options now

end SimTerm.FileSystem

import SimTerm.Proofs.FileSystem.Calls
import SimTerm.Proofs.FileSystem.Opening

/-!
# Memory is written through

A `Watched` file system knows which of its two texts have been saved since the last reset. Whatever
calls are made and whichever of them the storage refuses, a text that has been saved is the text of
what is in memory: `stored_texts_written_through`.

One step is described by `TreeStep` and `MarksStep`: either what is stored is now the text of what
is in memory, or neither has changed.
-/

namespace SimTerm.FileSystem

/-- The stored tree is the one in memory. -/
def TreeStored (fs : FileSystem) : Prop :=
  fs.storage.text? treeKey = some fs.root.encode

/-- The stored bookmarks are those in memory. -/
def BookmarksStored (fs : FileSystem) : Prop :=
  fs.storage.text? bookmarksKey = some fs.bookmarks.encode

/-! ## Steps -/

/-- A step that leaves the bookmarks alone, and stores the tree or leaves that alone too. -/
structure TreeStep (a b : FileSystem) : Prop where
  bookmarks : b.bookmarks = a.bookmarks
  marksText : b.storage.text? bookmarksKey = a.storage.text? bookmarksKey
  marksCount : b.storage.saveCount bookmarksKey = a.storage.saveCount bookmarksKey
  tree : b.TreeStored ∨ b.root = a.root ∧ b.storage.text? treeKey = a.storage.text? treeKey ∧
    b.storage.saveCount treeKey = a.storage.saveCount treeKey

/-- A step that leaves the tree alone, and stores the bookmarks or leaves those alone too. -/
structure MarksStep (a b : FileSystem) : Prop where
  sorted : b.bookmarks.Sorted
  root : b.root = a.root
  treeText : b.storage.text? treeKey = a.storage.text? treeKey
  treeCount : b.storage.saveCount treeKey = a.storage.saveCount treeKey
  marks : b.BookmarksStored ∨ b.bookmarks = a.bookmarks ∧
    b.storage.text? bookmarksKey = a.storage.text? bookmarksKey ∧
    b.storage.saveCount bookmarksKey = a.storage.saveCount bookmarksKey

theorem TreeStep.refl (fs : FileSystem) : TreeStep fs fs :=
  ⟨rfl, rfl, rfl, Or.inr ⟨rfl, rfl, rfl⟩⟩

theorem TreeStep.trans {a b c : FileSystem} (hab : TreeStep a b) (hbc : TreeStep b c) :
    TreeStep a c := by
  refine ⟨hbc.bookmarks.trans hab.bookmarks, hbc.marksText.trans hab.marksText,
    hbc.marksCount.trans hab.marksCount, ?_⟩
  rcases hbc.tree with hc | ⟨hroot, htext, hcount⟩
  · exact Or.inl hc
  · rcases hab.tree with hb | ⟨hroot', htext', hcount'⟩
    · left
      rw [TreeStored, htext, hroot]
      exact hb
    · exact Or.inr ⟨hroot.trans hroot', htext.trans htext', hcount.trans hcount'⟩

/-- A refused call is a step that leaves the tree alone. -/
theorem TreeStep.refused (fs : FileSystem) : TreeStep fs fs.refused :=
  ⟨rfl, rfl, rfl, Or.inr ⟨rfl, rfl, rfl⟩⟩

/-- Storing another tree is a step. -/
theorem TreeStep.withTree (fs : FileSystem) (root : Node) : TreeStep fs (fs.withTree root) :=
  ⟨rfl, Storage.text?_saved_of_ne treeKey_ne_bookmarksKey.symm _ _,
    Storage.saveCount_saved_of_ne treeKey_ne_bookmarksKey.symm _ _,
    Or.inl (Storage.text?_saved_self _ _ _)⟩

theorem MarksStep.withBookmarks (fs : FileSystem) {marks : Bookmarks} (h : marks.Sorted) :
    MarksStep fs (fs.withBookmarks marks) :=
  ⟨h, rfl, Storage.text?_saved_of_ne treeKey_ne_bookmarksKey _ _,
    Storage.saveCount_saved_of_ne treeKey_ne_bookmarksKey _ _,
    Or.inl (Storage.text?_saved_self _ _ _)⟩

/-- A commit is one step of the tree, whether it is refused or not. -/
theorem commit_treeStep (fs : FileSystem) (edit : Node → Except FileError Node) :
    TreeStep fs (fs.commit edit).2 := by
  rcases commit_cases fs edit with ⟨_, -, heq⟩ | ⟨_, -, heq⟩ | ⟨root, -, heq⟩
  · rw [heq]
    exact TreeStep.refl fs
  · rw [heq]
    exact TreeStep.refused fs
  · rw [heq]
    exact TreeStep.withTree fs root

/-- Every change of the tree is a step of the tree; a move is made of two. -/
theorem change_treeStep (fs : FileSystem) {c : Change} (h : c.ofBookmarks = false) :
    TreeStep fs (fs.change c).2 :=
  change_tree_induction TreeStep.refl (fun _ _ _ => TreeStep.trans)
    (fun fs edit _ => commit_treeStep fs edit) fs h

/-- Every change of the bookmarks is a step of the bookmarks, also when it is undone. -/
theorem change_marksStep {fs : FileSystem} (hs : fs.bookmarks.Sorted) {c : Change}
    (h : c.ofBookmarks = true) : MarksStep fs (fs.change c).2 := by
  rcases change_bookmarks_cases hs h with ⟨_, -, heq⟩ | ⟨marks, hmarks, heq⟩
  · rw [heq]
    exact ⟨hs, rfl, rfl, rfl, Or.inr ⟨rfl, rfl, rfl⟩⟩
  · rw [heq]
    exact MarksStep.withBookmarks fs hmarks

/-! ## Runs -/

/-- A file system, and which of its texts have been saved since it was last reset. -/
structure Watched where
  fs : FileSystem
  tree : Bool
  bookmarks : Bool

namespace Watched

/-- A file system that was just opened. -/
def «open» (storage : Storage) (now : Millis) (options : TreeOptions) : Watched :=
  let fs := FileSystem.open storage now options
  { fs
    tree := storage.saveCount treeKey < fs.storage.saveCount treeKey
    bookmarks := storage.saveCount bookmarksKey < fs.storage.saveCount bookmarksKey }

/-- The file system is now `fs`, and some texts may have been saved meanwhile. -/
def saw (w : Watched) (fs : FileSystem) : Watched :=
  { fs
    tree := w.tree || w.fs.storage.saveCount treeKey < fs.storage.saveCount treeKey
    bookmarks :=
      w.bookmarks || w.fs.storage.saveCount bookmarksKey < fs.storage.saveCount bookmarksKey }

/-- Make a call and watch which texts it saves. -/
def step (w : Watched) (c : Call) : Watched :=
  match c with
  | .reset => { fs := w.fs.reset.2, tree := false, bookmarks := false }
  | c => w.saw (w.fs.perform c).2

/-- Make calls in order. -/
def run (w : Watched) (calls : List Call) : Watched :=
  calls.foldl step w

/-- What has been saved is what is in memory. -/
structure WrittenThrough (w : Watched) : Prop where
  sorted : w.fs.bookmarks.Sorted
  tree : w.tree = true → w.fs.TreeStored
  bookmarks : w.bookmarks = true → w.fs.BookmarksStored

/-- What is watched is the file system after the calls. -/
theorem fs_run (w : Watched) (calls : List Call) : (w.run calls).fs = w.fs.after calls := by
  induction calls generalizing w with
  | nil => rfl
  | cons c calls ih =>
    have hstep : (w.step c).fs = (w.fs.perform c).2 := by
      cases c <;> rfl
    have htail : (w.run (c :: calls)).fs = ((w.step c).run calls).fs := rfl
    rw [htail, ih, hstep]
    rfl

end Watched

/-! ## The invariant -/

/-- Opening never saves the bookmarks. -/
theorem saveCount_bookmarks_open (storage : Storage) (now : Millis) (options : TreeOptions) :
    (FileSystem.open storage now options).storage.saveCount bookmarksKey =
      storage.saveCount bookmarksKey := by
  have hasked : (asked storage).saveCount bookmarksKey = storage.saveCount bookmarksKey := by
    rw [Storage.saveCount, journal_asked, Storage.saveCount]
  cases h : treeOfAnswer? (treeAnswer storage) with
  | some root =>
    rw [open_of_tree h]
    exact hasked
  | none =>
    rw [open_of_no_tree h]
    rcases storeTree_cases (unstored storage now options) with ⟨_, -, heq⟩ | ⟨-, heq⟩
    · rw [heq]
      exact hasked
    · rw [heq]
      exact (TreeStep.withTree _ _).marksCount.trans hasked

/-- Opening stores the tree or saves no tree. -/
theorem open_treeStored_or_unsaved (storage : Storage) (now : Millis) (options : TreeOptions) :
    (FileSystem.open storage now options).TreeStored ∨
      (FileSystem.open storage now options).storage.saveCount treeKey =
        storage.saveCount treeKey := by
  have hasked : (asked storage).saveCount treeKey = storage.saveCount treeKey := by
    rw [Storage.saveCount, journal_asked, Storage.saveCount]
  cases h : treeOfAnswer? (treeAnswer storage) with
  | some root =>
    rw [open_of_tree h]
    exact Or.inr hasked
  | none =>
    rw [open_of_no_tree h]
    rcases storeTree_cases (unstored storage now options) with ⟨_, -, heq⟩ | ⟨-, heq⟩
    · rw [heq]
      exact Or.inr hasked
    · rw [heq]
      exact Or.inl (Storage.text?_saved_self _ _ _)

namespace Watched

/-- After opening, what is in memory was not changed, so nothing is missing in the storage. -/
theorem open_writtenThrough (storage : Storage) (now : Millis) (options : TreeOptions) :
    (Watched.open storage now options).WrittenThrough := by
  have hmarks : (FileSystem.open storage now options).storage.saveCount bookmarksKey =
      storage.saveCount bookmarksKey := saveCount_bookmarks_open storage now options
  refine ⟨open_bookmarks_sorted storage now options, ?_, ?_⟩
  · intro h
    have hsaved := of_decide_eq_true h
    exact (open_treeStored_or_unsaved storage now options).resolve_right (Nat.ne_of_gt hsaved)
  · intro h
    have hsaved := of_decide_eq_true h
    rw [hmarks] at hsaved
    exact absurd hsaved (Nat.lt_irrefl _)

/-- A text that was saved before or is saved by this step is the one in memory, if the step either
stores what is in memory or leaves the text, the memory and the count of saves alone. -/
theorem stored_of_step {before after : Nat} {flag : Bool} {P Q : Prop}
    (hP : flag = true → P) (hstep : Q ∨ (P → Q) ∧ after = before)
    (h : (flag || decide (before < after)) = true) : Q := by
  rcases hstep with hQ | ⟨hPQ, hcount⟩
  · exact hQ
  · rw [hcount, decide_eq_false (Nat.lt_irrefl before), Bool.or_false] at h
    exact hPQ (hP h)

/-- A step of the tree keeps the invariant: what it changed in memory it has stored. -/
theorem WrittenThrough.of_treeStep {w : Watched} (h : w.WrittenThrough) {fs : FileSystem}
    (hstep : TreeStep w.fs fs) : (w.saw fs).WrittenThrough := by
  -- either text: stored by this step, or untouched together with its count and what is in memory
  refine ⟨?_, fun hflag => stored_of_step h.tree ?_ hflag,
    fun hflag => stored_of_step h.bookmarks ?_ hflag⟩
  · rw [saw, hstep.bookmarks]
    exact h.sorted
  · rcases hstep.tree with hstored | ⟨hroot, htext, hcount⟩
    · exact Or.inl hstored
    · refine Or.inr ⟨fun hstored => ?_, hcount⟩
      rw [TreeStored, saw, htext, hroot]
      exact hstored
  · refine Or.inr ⟨fun hstored => ?_, hstep.marksCount⟩
    rw [BookmarksStored, saw, hstep.marksText, hstep.bookmarks]
    exact hstored

/-- A step of the bookmarks keeps the invariant: what it changed in memory it has stored. -/
theorem WrittenThrough.of_marksStep {w : Watched} (h : w.WrittenThrough) {fs : FileSystem}
    (hstep : MarksStep w.fs fs) : (w.saw fs).WrittenThrough := by
  refine ⟨hstep.sorted, fun hflag => stored_of_step h.tree ?_ hflag,
    fun hflag => stored_of_step h.bookmarks ?_ hflag⟩
  · refine Or.inr ⟨fun hstored => ?_, hstep.treeCount⟩
    rw [TreeStored, saw, hstep.treeText, hstep.root]
    exact hstored
  · rcases hstep.marks with hstored | ⟨hmarks, htext, hcount⟩
    · exact Or.inl hstored
    · refine Or.inr ⟨fun hstored => ?_, hcount⟩
      rw [BookmarksStored, saw, htext, hmarks]
      exact hstored

/-- One call, whatever the storage answers. -/
theorem WrittenThrough.step {w : Watched} (h : w.WrittenThrough) (c : Call) :
    (w.step c).WrittenThrough := by
  cases c with
  | change c =>
    cases hmarks : c.ofBookmarks with
    | false => exact h.of_treeStep (change_treeStep w.fs hmarks)
    | true => exact h.of_marksStep (change_marksStep h.sorted hmarks)
  | query q => exact h.of_treeStep (TreeStep.refl w.fs)
  | clock now => exact h.of_treeStep ⟨rfl, rfl, rfl, Or.inr ⟨rfl, rfl, rfl⟩⟩
  | reset => exact ⟨Entries.sorted_nil, fun hflag => (nomatch hflag), fun hflag => (nomatch hflag)⟩

/-- Any calls in any order. -/
theorem WrittenThrough.run {w : Watched} (h : w.WrittenThrough) (calls : List Call) :
    (w.run calls).WrittenThrough := by
  induction calls generalizing w with
  | nil => exact h
  | cons c calls ih =>
    rw [Watched.run, List.foldl_cons]
    exact ih (h.step c)

end Watched

/-- Whatever a storage holds and whatever it refuses, after any calls a text that was saved since
the last reset is the text of what is in memory; and the next call changes the text of the tree only
if it is a change of the tree, and that of the bookmarks only if it is a change of them. -/
theorem stored_texts_written_through (storage : Storage) (now : Millis) (options : TreeOptions)
    (calls : List Call) :
    let w := (Watched.open storage now options).run calls
    w.fs = (FileSystem.open storage now options).after calls ∧
      (w.tree = true → w.fs.storage.text? treeKey = some w.fs.root.encode) ∧
      (w.bookmarks = true → w.fs.storage.text? bookmarksKey = some w.fs.bookmarks.encode) ∧
      (∀ c : Change, c.ofBookmarks = false →
        (w.fs.change c).2.storage.text? bookmarksKey = w.fs.storage.text? bookmarksKey) ∧
      (∀ c : Change, c.ofBookmarks = true →
        (w.fs.change c).2.storage.text? treeKey = w.fs.storage.text? treeKey) ∧
      (∀ (q : Query) (key : String),
        (w.fs.perform (.query q)).2.storage.text? key = w.fs.storage.text? key) := by
  intro w
  have hw : w.WrittenThrough :=
    (Watched.open_writtenThrough storage now options).run calls
  refine ⟨Watched.fs_run _ calls, hw.tree, hw.bookmarks, ?_, ?_, ?_⟩
  · intro c hc
    exact (change_treeStep w.fs hc).marksText
  · intro c hc
    exact (change_marksStep hw.sorted hc).treeText
  · intro q key
    rfl

end SimTerm.FileSystem

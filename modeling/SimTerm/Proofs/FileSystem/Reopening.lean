import SimTerm.Proofs.FileSystem.Durability
import SimTerm.Proofs.FileSystem.RefusedLoad

/-!
# Opening settles what is stored

A storage that refuses nothing may hold any texts, or none. Opening it writes the default tree if no
directory can be read, and nothing otherwise; from then on it makes no difference how often and when
it is opened again: `opening_settles`. What carries this is that a file system which is kept by its
storage is what opening finds there, but for the moment: `open_of_kept`.
-/

namespace SimTerm

namespace Storage

/-- From one state of a storage to the other nothing was written. -/
structure Unwritten (s t : Storage) : Prop where
  texts : t.texts = s.texts
  journal : t.journal = s.journal
  saves : t.tally.saves = s.tally.saves
  removes : t.tally.removes = s.tally.removes

/-- From one state of a storage to the other this text was written, and nothing else. -/
structure WrittenOnce (key text : String) (s t : Storage) : Prop where
  texts : t.texts = s.texts.insert key text
  journal : t.journal = (key, text) :: s.journal
  saves : t.tally.saves = s.tally.saves + 1
  removes : t.tally.removes = s.tally.removes

theorem Unwritten.refl (s : Storage) : s.Unwritten s :=
  ⟨rfl, rfl, rfl, rfl⟩

theorem Unwritten.trans {s t u : Storage} (hst : s.Unwritten t) (htu : t.Unwritten u) :
    s.Unwritten u :=
  ⟨htu.texts.trans hst.texts, htu.journal.trans hst.journal, htu.saves.trans hst.saves,
    htu.removes.trans hst.removes⟩

/-- After nothing was written and one text saved, that text is all that was written. -/
theorem Unwritten.saved {s t : Storage} (h : s.Unwritten t) (key text : String) :
    WrittenOnce key text s (t.saved key text) := by
  refine ⟨?_, ?_, congrArg (· + 1) h.saves, h.removes⟩
  · rw [← h.texts]
    rfl
  · rw [← h.journal]
    rfl

end Storage

namespace FileSystem

/-- No text is stored that can be read as a directory. -/
def NoTreeStored (s : Storage) : Prop :=
  ∀ text root, s.text? treeKey = some text → Node.decode? text = some root → root.isDir = false

/-- Open a storage again and again, once at each of these moments. -/
def openAgain (options : TreeOptions) (fs : FileSystem) (moments : List Millis) : FileSystem :=
  moments.foldl (fun fs now => FileSystem.open fs.storage now options) fs

/-- Opening again once is opening on the storage that was left. -/
theorem openAgain_singleton (options : TreeOptions) (fs : FileSystem) (now : Millis) :
    openAgain options fs [now] = FileSystem.open fs.storage now options :=
  rfl

/-! ## What the first opening does -/

/-- Asking for the two texts writes nothing. -/
theorem asked_unwritten (s : Storage) : s.Unwritten (asked s) := by
  rw [asked, Storage.storage_load, Storage.storage_load]
  exact ⟨rfl, rfl, rfl, rfl⟩

/-- A directory that opening finds is one that can be read. -/
theorem not_noTreeStored {s : Storage} {root : Node}
    (h : treeOfAnswer? (treeAnswer s) = some root) : ¬ NoTreeStored s := by
  obtain ⟨text, htext, hread⟩ := exists_text_of_treeOfAnswer? h
  intro hnone
  have hfile := hnone text root htext hread
  rw [(treeOfAnswer?_isTree h).isDir] at hfile
  cases hfile

/-- A storage that refuses nothing answers with every directory that can be read. -/
theorem noTreeStored_of_eq_none {s : Storage} (hs : s.Reliable)
    (h : treeOfAnswer? (treeAnswer s) = none) : NoTreeStored s := by
  intro text root htext hread
  rw [treeAnswer_of_reliable hs, htext, treeOfAnswer?, hread, Option.filter_some] at h
  split at h
  · cases h
  · next hdir => exact Bool.eq_false_iff.2 hdir

/-! ## What later openings find -/

/-- What a storage keeps is found when it is opened. -/
theorem open_of_kept {fs : FileSystem} (h : Kept false fs) (later : Millis)
    (options : TreeOptions) :
    FileSystem.open fs.storage later options =
      { fs with storage := asked fs.storage, now := later, options } := by
  have htree : treeOfAnswer? (treeAnswer fs.storage) = some fs.root := by
    rw [treeAnswer_of_reliable h.reliable]
    exact h.unstored rfl
  have hmarks : bookmarksOfAnswer (bookmarksAnswer fs.storage) = fs.bookmarks := by
    rw [bookmarksAnswer_of_reliable h.reliable]
    exact h.bookmarks
  rw [open_of_tree htree, hmarks]

/-- However often it is opened again, the same is found and nothing is written, by induction on the
moments: what was opened is kept. -/
theorem openAgain_of_kept {fs : FileSystem} (h : Kept false fs) (options : TreeOptions)
    (moments : List Millis) :
    (openAgain options fs moments).root = fs.root ∧
      (openAgain options fs moments).bookmarks = fs.bookmarks ∧
      fs.storage.Unwritten (openAgain options fs moments).storage := by
  induction moments generalizing fs with
  | nil => exact ⟨rfl, rfl, .refl _⟩
  | cons later moments ih =>
    obtain ⟨hroot, hmarks, hunwritten⟩ := ih (open_kept h.reliable later options)
    rw [open_of_kept h later options] at hroot hmarks hunwritten
    rw [openAgain, List.foldl_cons, open_of_kept h later options]
    exact ⟨hroot, hmarks, (asked_unwritten fs.storage).trans hunwritten⟩

/-- A storage that refuses nothing is opened, whatever texts it holds. The root is a directory. If
no directory was stored in a readable text, it is the default tree, and this is written, once;
otherwise it is the stored one, and nothing is written. The stored bookmarks are left as they are,
and those that can be read are the table. Opened again with the same options, at any moments and any
number of times, it has the same root and the same bookmarks, and nothing more is written. -/
theorem opening_settles {s : Storage} (hs : s.Reliable) (now : Millis) (options : TreeOptions) :
    let fs := FileSystem.open s now options
    fs.root.isDir = true ∧
      (NoTreeStored s ∧ fs.root = options.defaultTree now ∧
          Storage.WrittenOnce treeKey fs.root.encode s fs.storage ∨
        (∃ text, s.text? treeKey = some text ∧ Node.decode? text = some fs.root) ∧
          ¬ NoTreeStored s ∧ s.Unwritten fs.storage) ∧
      fs.storage.text? bookmarksKey = s.text? bookmarksKey ∧
      fs.bookmarks = ((s.text? bookmarksKey).bind Bookmarks.decode?).getD [] ∧
      ∀ moments : List Millis,
        (openAgain options fs moments).root = fs.root ∧
          (openAgain options fs moments).bookmarks = fs.bookmarks ∧
          fs.storage.Unwritten (openAgain options fs moments).storage := by
  intro fs
  refine ⟨(open_isTree s now options).isDir, ?_, text?_bookmarksKey_open s now options, ?_,
    openAgain_of_kept (open_kept hs now options) options⟩
  · -- what was read is left alone, and what could not be read as a directory was overwritten once
    cases htree : treeOfAnswer? (treeAnswer s) with
    | none =>
      have hopen : fs = _ := open_of_unstored hs htree now options
      rw [hopen]
      exact Or.inl ⟨noTreeStored_of_eq_none hs htree, rfl, (asked_unwritten s).saved _ _⟩
    | some root =>
      have hopen : fs = _ := open_of_tree htree now options
      rw [hopen]
      exact Or.inr ⟨exists_text_of_treeOfAnswer? htree, not_noTreeStored htree, asked_unwritten s⟩
  · have hmarks : fs.bookmarks = bookmarksOfAnswer (.ok (s.text? bookmarksKey)) := by
      rw [← bookmarksAnswer_of_reliable hs]
      exact bookmarks_open s now options
    rw [hmarks]
    cases s.text? bookmarksKey <;> rfl

/-- A storage with a bookmark, and a file where a directory should be. -/
def misfiled : Storage :=
  { texts := [(bookmarksKey, Bookmarks.encode [("a", "/x")]),
      (treeKey, (Node.newFile 5 "text").encode)] }

/-- The storage of the example holds no tree. -/
theorem misfiled_noTreeStored : NoTreeStored misfiled := by
  intro text root htext hread
  have hfile : misfiled.text? treeKey = some (Node.newFile 5 "text").encode := rfl
  rw [hfile] at htext
  obtain rfl := Option.some.inj htext
  rw [Node.decode?_encode (Node.newFile_ordered 5 "text"), if_pos (by decide)] at hread
  obtain rfl := Option.some.inj hread
  rfl

/-- The storage of the example holds one bookmark. -/
theorem misfiled_bookmarks :
    ((misfiled.text? bookmarksKey).bind Bookmarks.decode?).getD [] = [("a", "/x")] := by
  have htext : misfiled.text? bookmarksKey = some (Bookmarks.encode [("a", "/x")]) := rfl
  rw [htext, Option.bind_some, Bookmarks.decode?_encode (List.pairwise_singleton _ _),
    Option.getD_some]

/-- The default tree takes the place of the file, with the moment of the first opening, and is found
again at another moment; the bookmark is there both times. -/
theorem opening_settles_misfiled :
    let fs := FileSystem.open misfiled 9 {}
    let again := FileSystem.open fs.storage 12 {}
    misfiled.Reliable ∧ fs.root = TreeOptions.defaultTree {} 9 ∧
      fs.storage.journal = [(treeKey, fs.root.encode)] ∧ fs.bookmarks = [("a", "/x")] ∧
      again.root = TreeOptions.defaultTree {} 9 ∧ again.storage.journal = fs.storage.journal ∧
      again.bookmarks = [("a", "/x")] := by
  have hreliable : misfiled.Reliable := fun _ _ _ => rfl
  obtain ⟨-, htree, -, hmarks, hagain⟩ := opening_settles hreliable 9 {}
  obtain ⟨hroot, hbookmarks, hunwritten⟩ := hagain [12]
  rw [openAgain_singleton] at hroot hbookmarks hunwritten
  rw [misfiled_bookmarks] at hmarks
  rcases htree with ⟨-, hdefault, hwritten⟩ | ⟨-, hstored, -⟩
  · have hjournal := hwritten.journal
    dsimp only
    exact ⟨hreliable, hdefault, hjournal, hmarks, hroot.trans hdefault, hunwritten.journal,
      hbookmarks.trans hmarks⟩
  · exact absurd misfiled_noTreeStored hstored

end FileSystem

end SimTerm

import SimTerm.Proofs.Bookmarks
import SimTerm.Proofs.FileSystem.WriteThrough
import SimTerm.Proofs.Node.Codec
import SimTerm.Proofs.Path

/-!
# Opening again

A file system over a storage that refuses nothing is left after any changes that all succeeded, and
another one is opened on the same storage. The bookmarks are always those that were left. The tree
is the one that was left as long as its text can be read: where changes stored a tree with a
directory whose path has more than 62 segments, the tree that is found is the default one.

The invariant is `Kept`: what is stored is what is in memory, in the sense of a reader as long as
nothing was stored, and as text from then on.
-/

namespace SimTerm.FileSystem

/-! ## Changes that succeed -/

/-- Make changes in order, each at its moment, as long as they succeed. -/
def changeAll (fs : FileSystem) : List (Millis × Change) → Except Failure FileSystem
  | [] => .ok fs
  | (now, c) :: steps =>
    match { fs with now }.change c with
    | (.ok (), fs) => fs.changeAll steps
    | (.error failure, _) => .error failure

/-- The change stores the tree when it succeeds: it is a change of the tree, and not a move of a
node to where it is. -/
def Change.storesTree : Change → Bool
  | .addBookmark .. => false
  | .removeBookmark _ => false
  | .move source dest => Path.segments source ≠ Path.segments dest
  | _ => true

/-- A commit that succeeds has stored the tree. -/
theorem commit_ok_treeStored {fs : FileSystem} {edit : Node → Except FileError Node}
    (h : (fs.commit edit).1 = .ok ()) : (fs.commit edit).2.TreeStored := by
  rcases commit_cases fs edit with ⟨_, -, heq⟩ | ⟨_, -, heq⟩ | ⟨_, -, heq⟩
  · rw [heq] at h
    cases h
  · rw [heq] at h
    cases h
  · rw [heq]
    exact Storage.text?_saved_self _ _ _

/-- A change of the tree that succeeds stores it, or does nothing at all. -/
theorem change_ok_cases {fs : FileSystem} {c : Change} (htree : c.ofBookmarks = false)
    (h : (fs.change c).1 = .ok ()) :
    (c.storesTree = true ∧ (fs.change c).2.TreeStored) ∨
      (c.storesTree = false ∧ (fs.change c).2 = fs) := by
  -- of all changes only a move from a path to itself succeeds without a save
  by_cases hmove : ∃ source dest, c = .move source dest
  · obtain ⟨source, dest, rfl⟩ := hmove
    rw [change] at h ⊢
    rcases move_cases fs source dest with
      ⟨result, heq, hsame⟩ | ⟨hne, -, -, ⟨_, hcopy, heq⟩ | ⟨-, heq⟩⟩
    · rw [heq] at h ⊢
      exact Or.inr ⟨decide_eq_false (not_not_intro (hsame h)), rfl⟩
    · rw [heq, hcopy] at h
      cases h
    · rw [heq] at h ⊢
      exact Or.inl ⟨decide_eq_true hne, commit_ok_treeStored h⟩
  · obtain ⟨edit, -, heq⟩ :=
      change_eq_commit fs htree fun source dest heq => hmove ⟨source, dest, heq⟩
    rw [heq] at h ⊢
    refine Or.inl ⟨?_, commit_ok_treeStored h⟩
    cases c with
    | move source dest => exact absurd ⟨source, dest, rfl⟩ hmove
    | addBookmark => cases htree
    | removeBookmark => cases htree
    | _ => rfl

/-- A commit does not change what the storage refuses. -/
theorem commit_refusal (fs : FileSystem) (edit : Node → Except FileError Node) :
    (fs.commit edit).2.storage.refusal = fs.storage.refusal := by
  rcases commit_cases fs edit with ⟨_, -, heq⟩ | ⟨_, -, heq⟩ | ⟨_, -, heq⟩ <;> rw [heq] <;> rfl

/-- A commit of an edit that keeps trees leaves a tree, even when the edit is undone. -/
theorem commit_isTree {fs : FileSystem} {edit : Node → Except FileError Node}
    (hedit : KeepsTrees edit) (h : fs.root.IsTree) : (fs.commit edit).2.root.IsTree := by
  rcases commit_cases fs edit with ⟨_, -, heq⟩ | ⟨_, -, heq⟩ | ⟨root, hroot, heq⟩
  · rw [heq]
    exact h
  · rw [heq]
    exact h
  · rw [heq]
    exact hedit _ _ h hroot

/-- No change of the file system changes what its storage refuses. -/
theorem change_refusal {fs : FileSystem} (hs : fs.bookmarks.Sorted) (c : Change) :
    (fs.change c).2.storage.refusal = fs.storage.refusal := by
  cases hmarks : c.ofBookmarks with
  | false =>
    exact change_tree_induction (P := fun a b => b.storage.refusal = a.storage.refusal)
      (fun _ => rfl) (fun _ _ _ hab hbc => hbc.trans hab) (fun fs edit _ => commit_refusal fs edit)
      fs hmarks
  | true =>
    rcases change_bookmarks_cases hs hmarks with ⟨_, -, heq⟩ | ⟨_, -, heq⟩ <;> rw [heq] <;> rfl

/-- Every change leaves a tree a tree. -/
theorem change_isTree {fs : FileSystem} (hs : fs.bookmarks.Sorted) (h : fs.root.IsTree)
    (c : Change) : (fs.change c).2.root.IsTree := by
  cases hmarks : c.ofBookmarks with
  | false =>
    exact change_tree_induction (P := fun a b => a.root.IsTree → b.root.IsTree)
      (fun _ ha => ha) (fun _ _ _ hab hbc ha => hbc (hab ha))
      (fun _ _ hedit ha => commit_isTree hedit ha) fs hmarks h
  | true =>
    rw [(change_marksStep hs hmarks).root]
    exact h

/-- Every change leaves the bookmarks in order. -/
theorem change_sorted {fs : FileSystem} (hs : fs.bookmarks.Sorted) (c : Change) :
    (fs.change c).2.bookmarks.Sorted := by
  cases hmarks : c.ofBookmarks with
  | true => exact (change_marksStep hs hmarks).sorted
  | false =>
    rw [(change_treeStep fs hmarks).bookmarks]
    exact hs

/-- What can be told without the tree, the bookmarks and the storage is not changed. -/
theorem change_leaves {α : Type} {f : FileSystem → α}
    (hf : ∀ fs root bookmarks storage, f { fs with root, bookmarks, storage } = f fs)
    {fs : FileSystem} (hs : fs.bookmarks.Sorted) (c : Change) : f (fs.change c).2 = f fs := by
  cases hmarks : c.ofBookmarks with
  | false =>
    refine change_tree_induction (P := fun a b => f b = f a) (fun _ => rfl)
      (fun _ _ _ hab hbc => hbc.trans hab) (fun fs edit _ => ?_) fs hmarks
    rcases commit_cases fs edit with ⟨_, -, heq⟩ | ⟨_, -, heq⟩ | ⟨root, -, heq⟩
    · rw [heq]
    · rw [heq]
      exact hf fs fs.root fs.bookmarks _
    · rw [heq]
      exact hf fs root fs.bookmarks _
  | true =>
    rcases change_bookmarks_cases hs hmarks with ⟨_, -, heq⟩ | ⟨marks, -, heq⟩
    · rw [heq]
      exact hf fs fs.root fs.bookmarks _
    · rw [heq]
      exact hf fs fs.root marks _

/-- No change is one of the options. -/
theorem change_options {fs : FileSystem} (hs : fs.bookmarks.Sorted) (c : Change) :
    (fs.change c).2.options = fs.options :=
  change_leaves (f := FileSystem.options) (fun _ _ _ _ => rfl) hs c

/-- No change takes the clock further. -/
theorem change_now {fs : FileSystem} (hs : fs.bookmarks.Sorted) (c : Change) :
    (fs.change c).2.now = fs.now :=
  change_leaves (f := FileSystem.now) (fun _ _ _ _ => rfl) hs c

/-! ## What is kept -/

/-- What a reliable storage would answer about the tree. -/
def storedTree? (fs : FileSystem) : Option Node :=
  treeOfAnswer? (.ok (fs.storage.text? treeKey))

/-- What a reliable storage would answer about the bookmarks. -/
def storedBookmarks (fs : FileSystem) : Bookmarks :=
  bookmarksOfAnswer (.ok (fs.storage.text? bookmarksKey))

/-- The storage keeps what is in memory; `stored` tells whether changes have stored the tree. -/
structure Kept (stored : Bool) (fs : FileSystem) : Prop where
  reliable : fs.storage.Reliable
  isTree : fs.root.IsTree
  sorted : fs.bookmarks.Sorted
  bookmarks : fs.storedBookmarks = fs.bookmarks
  unstored : stored = false → fs.storedTree? = some fs.root
  stored : stored = true → fs.TreeStored

/-- A table that was stored is read back as it was. -/
theorem storedBookmarks_of_stored {fs : FileSystem} (hs : fs.bookmarks.Sorted)
    (h : fs.BookmarksStored) : fs.storedBookmarks = fs.bookmarks := by
  rw [storedBookmarks, h, bookmarksOfAnswer, Bookmarks.decode?_encode hs, Option.getD_some]

/-- A stored tree is found again unless it is nested too deeply. -/
theorem storedTree?_of_stored {fs : FileSystem} (h : fs.root.IsTree) (hstored : fs.TreeStored) :
    fs.storedTree? = if fs.root.nesting ≤ Json.maxDepth then some fs.root else none := by
  rw [storedTree?, hstored, treeOfAnswer?, Node.decode?_encode h.ordered]
  by_cases hn : fs.root.nesting ≤ Json.maxDepth
  · rw [if_pos hn, Option.filter_some, if_pos h.isDir]
  · rw [if_neg hn, Option.filter_none]

/-- A default tree is never nested too deeply to be read back. -/
theorem defaultTree_nesting (options : TreeOptions) (now : Millis) :
    (options.defaultTree now).nesting ≤ Json.maxDepth := by
  unfold TreeOptions.defaultTree
  split <;> simp [Node.newDir, Node.nesting, Node.entriesNesting, Json.maxDepth]

theorem treeAnswer_of_reliable {s : Storage} (hs : s.Reliable) :
    treeAnswer s = .ok (s.text? treeKey) := by
  have hcounted : (s.counted .load).Reliable := hs
  rw [treeAnswer, Storage.load_of_reliable hs, Storage.load_of_reliable hcounted,
    Storage.text?_counted]

theorem bookmarksAnswer_of_reliable {s : Storage} (hs : s.Reliable) :
    bookmarksAnswer s = .ok (s.text? bookmarksKey) := by
  rw [bookmarksAnswer, Storage.load_of_reliable hs]

/-- A storage that refuses nothing still refuses nothing after it was asked. -/
theorem asked_reliable {s : Storage} (hs : s.Reliable) : (asked s).Reliable :=
  fun call key made => by rw [refusal_asked, hs]

/-- Where no tree can be taken the default tree is stored. -/
theorem open_of_unstored {s : Storage} (hs : s.Reliable)
    (h : treeOfAnswer? (treeAnswer s) = none) (now : Millis) (options : TreeOptions) :
    FileSystem.open s now options =
      (unstored s now options).withTree (options.defaultTree now) := by
  rw [open_of_no_tree h]
  rcases storeTree_cases (unstored s now options) with ⟨words, hrefused, -⟩ | ⟨-, heq⟩
  · cases ((asked_reliable hs).refused?_eq_none .save treeKey).symm.trans hrefused
  · rw [heq]
    rfl

/-- From a reliable storage what is opened is what the storage holds, a new default tree included.
-/
theorem open_kept {s : Storage} (hs : s.Reliable) (now : Millis) (options : TreeOptions) :
    Kept false (FileSystem.open s now options) := by
  have hsorted := open_bookmarks_sorted s now options
  have hisTree := open_isTree s now options
  have hmarks := bookmarksAnswer_of_reliable hs
  -- a tree that was found is in the storage, and any other was stored by opening
  cases h : treeOfAnswer? (treeAnswer s) with
  | some root =>
    rw [open_of_tree h] at hsorted hisTree ⊢
    rw [treeAnswer_of_reliable hs] at h
    refine ⟨asked_reliable hs, hisTree, hsorted, ?_, fun _ => ?_, fun hf => (nomatch hf)⟩
    · rw [storedBookmarks, text?_asked, ← hmarks]
    · rw [storedTree?, text?_asked]
      exact h
  | none =>
    rw [open_of_unstored hs h] at hsorted hisTree ⊢
    refine ⟨asked_reliable hs, hisTree, hsorted, ?_, fun _ => ?_, fun hf => (nomatch hf)⟩
    · have htext := (TreeStep.withTree (unstored s now options) (options.defaultTree now)).marksText
      rw [storedBookmarks, htext]
      exact congrArg bookmarksOfAnswer ((congrArg Except.ok (text?_asked s bookmarksKey)).trans
        hmarks.symm)
    · rw [storedTree?_of_stored hisTree (Storage.text?_saved_self _ _ _)]
      exact if_pos (defaultTree_nesting options now)

/-- The clock makes no difference to what is kept. -/
theorem Kept.at_moment {stored : Bool} {fs : FileSystem} (h : Kept stored fs) (now : Millis) :
    Kept stored { fs with now } :=
  ⟨h.reliable, h.isTree, h.sorted, h.bookmarks, h.unstored, h.stored⟩

/-- A change of the bookmarks, whether or not it succeeds. -/
theorem Kept.of_marksStep {stored : Bool} {fs after : FileSystem} (h : Kept stored fs)
    (hreliable : after.storage.Reliable) (hstep : MarksStep fs after) : Kept stored after := by
  refine ⟨hreliable, hstep.root ▸ h.isTree, hstep.sorted, ?_, fun hf => ?_, fun ht => ?_⟩
  · rcases hstep.marks with hstored | ⟨hsame, htext, -⟩
    · exact storedBookmarks_of_stored hstep.sorted hstored
    · rw [storedBookmarks, htext, hsame]
      exact h.bookmarks
  · rw [storedTree?, hstep.treeText, hstep.root]
    exact h.unstored hf
  · rw [TreeStored, hstep.treeText, hstep.root]
    exact h.stored ht

/-- A change of the tree that stores it. -/
theorem Kept.of_treeStored {stored : Bool} {fs after : FileSystem} (h : Kept stored fs)
    (hreliable : after.storage.Reliable) (hisTree : after.root.IsTree) (hstep : TreeStep fs after)
    (hstored : after.TreeStored) : Kept true after := by
  refine ⟨hreliable, hisTree, hstep.bookmarks.symm ▸ h.sorted, ?_, fun hf => ?_, fun _ => hstored⟩
  · rw [storedBookmarks, hstep.marksText, hstep.bookmarks]
    exact h.bookmarks
  · cases hf

/-- One change that succeeds. -/
theorem Kept.change {stored : Bool} {fs : FileSystem} (h : Kept stored fs) {c : Change}
    (hok : (fs.change c).1 = .ok ()) : Kept (stored || c.storesTree) (fs.change c).2 := by
  have hreliable : (fs.change c).2.storage.Reliable := fun call key made => by
    rw [change_refusal h.sorted c, h.reliable]
  cases hmarks : c.ofBookmarks with
  | true =>
    have hstores : c.storesTree = false := by
      cases c with
      | addBookmark => rfl
      | removeBookmark => rfl
      | _ => cases hmarks
    rw [hstores, Bool.or_false]
    exact h.of_marksStep hreliable (change_marksStep h.sorted hmarks)
  | false =>
    -- a change that stores no tree leaves everything, so the flag stays as it is
    rcases change_ok_cases hmarks hok with ⟨hstores, hstored⟩ | ⟨hstores, heq⟩
    · rw [hstores, Bool.or_true]
      exact h.of_treeStored hreliable (change_isTree h.sorted h.isTree c)
        (change_treeStep fs hmarks) hstored
    · rw [hstores, Bool.or_false, heq]
      exact h

/-- Any changes that succeed. -/
theorem Kept.changeAll {steps : List (Millis × Change)} {stored : Bool} {fs after : FileSystem}
    (h : Kept stored fs) (hrun : fs.changeAll steps = .ok after) :
    Kept (stored || steps.any fun step => step.2.storesTree) after := by
  -- `stored` grows along the run, so the invariant is carried for any flag
  induction steps generalizing stored fs with
  | nil =>
    rw [FileSystem.changeAll, Except.ok.injEq] at hrun
    rw [List.any_nil, Bool.or_false, ← hrun]
    exact h
  | cons step steps ih =>
    obtain ⟨now, c⟩ := step
    rw [FileSystem.changeAll] at hrun
    split at hrun
    · next next hchange =>
      have hnext := (h.at_moment now).change (c := c) (by rw [hchange])
      rw [hchange] at hnext
      rw [List.any_cons, ← Bool.or_assoc]
      exact ih hnext hrun
    · cases hrun

/-! ## What is found -/

/-- What is opened on a storage that refuses nothing. -/
theorem open_of_reliable {fs : FileSystem} (h : fs.storage.Reliable) (later : Millis)
    (options : TreeOptions) :
    (FileSystem.open fs.storage later options).bookmarks = fs.storedBookmarks ∧
      (FileSystem.open fs.storage later options).root =
        fs.storedTree?.getD (options.defaultTree later) := by
  constructor
  · rw [bookmarks_open, bookmarksAnswer_of_reliable h, storedBookmarks]
  · have hanswer : treeOfAnswer? (treeAnswer fs.storage) = fs.storedTree? := by
      rw [treeAnswer_of_reliable h, storedTree?]
    cases htree : fs.storedTree? with
    | some root => rw [open_of_tree (hanswer.trans htree), Option.getD_some]
    | none =>
      rw [open_of_no_tree (hanswer.trans htree), Option.getD_none]
      rfl

/-! ## Directories in directories -/

/-- A directory with nothing but a directory in it, and so on, `depth` of them below the root. -/
def chain : Nat → Node
  | 0 => Node.newDir 0
  | depth + 1 => .dir [("a", chain depth)] (Node.stampedAt 0)

/-- The path of the directory `depth` levels below the root of a chain. -/
def chainPath (depth : Nat) : String :=
  Path.ofSegments (List.replicate depth "a")

/-- Make a chain deeper, one directory after the other. -/
def deepen : Nat → Nat → List (Millis × Change)
  | _, 0 => []
  | depth, more + 1 => (0, .makeDir (chainPath (depth + 1))) :: deepen (depth + 1) more

/-- Each directory of a chain adds two levels of nesting to the text. -/
theorem nesting_chain (depth : Nat) : (chain depth).nesting = 2 * depth + 2 := by
  induction depth with
  | zero => simp [chain, Node.newDir, Node.nesting, Node.entriesNesting]
  | succ depth ih =>
    simp [chain, Node.nesting, Node.entriesNesting, ih]
    omega

/-- The path to the end of a chain has a segment for each directory. -/
theorem segments_chainPath (depth : Nat) :
    Path.segments (chainPath depth) = List.replicate depth "a" := by
  refine Path.segments_ofSegments fun s hs => ?_
  rw [List.eq_of_mem_replicate hs]
  exact ⟨by decide, by decide⟩

/-- A new directory at the end of a chain makes a longer chain. -/
theorem makeDir_chain (depth : Nat) :
    (chain depth).makeDir 0 (List.replicate (depth + 1) "a") = .ok (chain (depth + 1)) := by
  rw [List.replicate_succ', Node.makeDir, Node.splitLast?_append]
  induction depth with
  | zero => rfl
  | succ depth ih =>
    simp only [chain, List.replicate_succ, Node.editEntries, Entries.get?, if_pos] at ih ⊢
    rw [ih]
    simp [Except.map, Entries.insert]

/-- A chain is made as deep as one likes. -/
theorem changeAll_deepen {fs : FileSystem} (hreliable : fs.storage.Reliable) (depth : Nat)
    (hroot : fs.root = chain depth) (more : Nat) :
    ∃ after, fs.changeAll (deepen depth more) = .ok after ∧ after.root = chain (depth + more) := by
  induction more generalizing fs depth with
  | zero => exact ⟨fs, rfl, hroot⟩
  | succ more ih =>
    have hmade : { fs with now := 0 }.change (.makeDir (chainPath (depth + 1))) =
        (.ok (), withTree { fs with now := 0 } (chain (depth + 1))) := by
      refine commit_of_saved ?_ (hreliable.refused?_eq_none _ _)
      rw [segments_chainPath]
      exact (congrArg _ hroot).trans (makeDir_chain depth)
    have hnext : (withTree { fs with now := 0 } (chain (depth + 1))).storage.Reliable :=
      fun call key made => hreliable call key made
    obtain ⟨after, hafter, hchain⟩ := ih hnext (depth + 1) rfl
    refine ⟨after, ?_, ?_⟩
    · rw [deepen, FileSystem.changeAll, hmade]
      exact hafter
    · rw [hchain, Nat.succ_add_eq_add_succ]

/-! ## What is found again -/

/-- After changes that all succeeded, the bookmarks are found again, and the tree is found again
exactly if no directory in it has a path of more than 62 segments or no change has stored it; what
is found otherwise is the default tree. -/
theorem found_again {storage : Storage} (hs : storage.Reliable) (now : Millis)
    (options : TreeOptions) {steps : List (Millis × Change)} {fs : FileSystem}
    (hrun : (FileSystem.open storage now options).changeAll steps = .ok fs) (later : Millis)
    (options' : TreeOptions) :
    let again := FileSystem.open fs.storage later options'
    again.bookmarks = fs.bookmarks ∧
      (again.root = fs.root ↔
        Node.DirsAbove Node.readableDepth fs.root ∨ ∀ step ∈ steps, step.2.storesTree = false) ∧
      (again.root = fs.root ∨ again.root = options'.defaultTree later) := by
  intro again
  have hkept := (open_kept hs now options).changeAll hrun
  obtain ⟨hmarks, hroot⟩ := open_of_reliable hkept.reliable later options'
  refine ⟨hmarks.trans hkept.bookmarks, ?_⟩
  have habove := Node.nesting_le_maxDepth_iff hkept.isTree.ordered
  cases hstored : steps.any fun step => step.2.storesTree with
  | false =>
    have hnone : ∀ step ∈ steps, step.2.storesTree = false := by
      simpa using hstored
    rw [hkept.unstored hstored, Option.getD_some] at hroot
    exact ⟨iff_of_true hroot (Or.inr hnone), Or.inl hroot⟩
  | true =>
    have hsome : ¬ ∀ step ∈ steps, step.2.storesTree = false := by
      intro hnone
      obtain ⟨step, hstep, hstores⟩ := List.any_eq_true.1 hstored
      rw [hnone step hstep] at hstores
      cases hstores
    rw [storedTree?_of_stored hkept.isTree (hkept.stored hstored)] at hroot
    -- the default tree is not too deep itself, so it cannot be the tree that was left
    by_cases hn : fs.root.nesting ≤ Json.maxDepth
    · rw [if_pos hn, Option.getD_some] at hroot
      exact ⟨iff_of_true hroot (Or.inl (habove.1 hn)), Or.inl hroot⟩
    · rw [if_neg hn, Option.getD_none] at hroot
      refine ⟨iff_of_false (fun heq => hn ?_) ?_, Or.inr hroot⟩
      · rw [← heq, hroot]
        exact defaultTree_nesting options' later
      · rintro (hdirs | hnone)
        · exact hn (habove.2 hdirs)
        · exact hsome hnone

/-- A tree whose directories lie as deep as they may is found again. -/
theorem found_again_62_deep :
    ∃ fs, (FileSystem.open {} 0 { bare := true }).changeAll (deepen 0 62) = .ok fs ∧
      (FileSystem.open fs.storage 9 {}).root = fs.root := by
  have hreliable : ({} : Storage).Reliable := fun _ _ _ => rfl
  have hopen := open_kept hreliable 0 { bare := true }
  obtain ⟨fs, hrun, hroot⟩ := changeAll_deepen hopen.reliable 0 rfl 62
  have hshallow : fs.root.nesting ≤ Json.maxDepth := by
    rw [hroot, nesting_chain]
    decide
  have habove := (Node.nesting_le_maxDepth_iff (hopen.changeAll hrun).isTree.ordered).1 hshallow
  exact ⟨fs, hrun, (found_again hreliable 0 { bare := true } hrun 9 {}).2.1.2 (Or.inl habove)⟩

/-- After 63 directories were made in one another, and every call succeeded, the tree is lost. -/
theorem not_found_again_deep :
    ∃ fs, (FileSystem.open {} 0 { bare := true }).changeAll (deepen 0 63) = .ok fs ∧
      (FileSystem.open fs.storage 0 { bare := true }).root ≠ fs.root := by
  have hreliable : ({} : Storage).Reliable := fun _ _ _ => rfl
  have hopen := open_kept hreliable 0 { bare := true }
  obtain ⟨fs, hrun, hroot⟩ := changeAll_deepen hopen.reliable 0 rfl 63
  have hkept := hopen.changeAll hrun
  have hdeep : ¬ fs.root.nesting ≤ Json.maxDepth := by
    rw [hroot, nesting_chain]
    decide
  refine ⟨fs, hrun, fun hsame => ?_⟩
  have hfound := (open_of_reliable hkept.reliable 0 { bare := true }).2
  rw [storedTree?_of_stored hkept.isTree (hkept.stored rfl), if_neg hdeep, Option.getD_none,
    hsame] at hfound
  rw [hfound] at hdeep
  exact hdeep (defaultTree_nesting _ _)

end SimTerm.FileSystem

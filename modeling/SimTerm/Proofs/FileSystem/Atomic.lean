import SimTerm.Proofs.FileSystem.Calls
import SimTerm.Proofs.Node.Transfer

/-!
# A failed change changes nothing

A change that is answered with a failure leaves memory and texts as they were. Moving is the one
exception, and only in one place: where the copy was stored and the removal of the source was not,
what stands is what the copy alone leaves.
-/

namespace SimTerm.FileSystem

/-- The same tree, the same bookmarks and the same stored texts. -/
structure SameState (a b : FileSystem) : Prop where
  root : b.root = a.root
  bookmarks : b.bookmarks = a.bookmarks
  texts : b.storage.texts = a.storage.texts

theorem SameState.refl (fs : FileSystem) : SameState fs fs :=
  ⟨rfl, rfl, rfl⟩

/-- A refused call is counted, and nothing else is different. -/
theorem SameState.refused (fs : FileSystem) : SameState fs fs.refused :=
  ⟨rfl, rfl, rfl⟩

/-- A commit that fails changes nothing, whether the edit or the storage refused it. -/
theorem commit_sameState {fs : FileSystem} {edit : Node → Except FileError Node} {failure : Failure}
    (h : (fs.commit edit).1 = .error failure) : SameState fs (fs.commit edit).2 := by
  rcases commit_cases fs edit with ⟨_, -, heq⟩ | ⟨_, -, heq⟩ | ⟨_, -, heq⟩
  · rw [heq]
    exact SameState.refl fs
  · rw [heq]
    exact SameState.refused fs
  · rw [heq] at h
    cases h

/-- A commit of an edit that can be made fails only where the storage refuses it. -/
theorem commit_error_of_edit_ok {fs : FileSystem} {edit : Node → Except FileError Node}
    {failure : Failure} (hedit : ∃ after, edit fs.root = .ok after)
    (h : (fs.commit edit).1 = .error failure) :
    ∃ words, fs.storage.refused? .save treeKey = some words ∧ failure = .storage words := by
  obtain ⟨after, hafter⟩ := hedit
  rcases commit_cases fs edit with ⟨_, herror, -⟩ | ⟨words, hsave, heq⟩ | ⟨_, -, heq⟩
  · rw [hafter] at herror
    cases herror
  · rw [heq] at h
    cases h
    exact ⟨words, hsave, rfl⟩
  · rw [heq] at h
    cases h

/-- A copy that succeeded has put its tree in memory. -/
theorem copy_eq_ok {fs : FileSystem} {source dest : String} (h : (fs.copy source dest).1 = .ok ()) :
    fs.root.copyTo fs.now (Path.segments source) dest = .ok (fs.copy source dest).2.root := by
  rcases commit_cases fs (Node.copyTo fs.now (Path.segments source) dest) with
    ⟨_, -, heq⟩ | ⟨_, -, heq⟩ | ⟨root, hroot, heq⟩
  · rw [copy, heq] at h
    cases h
  · rw [copy, heq] at h
    cases h
  · rw [copy, heq]
    exact hroot

/-- A move that fails has changed nothing, or has copied without removing the source because the
storage refused that. -/
theorem move_failed {fs : FileSystem} {source dest : String} {failure : Failure}
    (h : (fs.move source dest).1 = .error failure) :
    SameState fs (fs.move source dest).2 ∨
      (fs.copy source dest).1 = .ok () ∧
      (∃ words, (fs.copy source dest).2.storage.refused? .save treeKey = some words ∧
        failure = .storage words) ∧
      SameState (fs.copy source dest).2 (fs.move source dest).2 := by
  rcases move_cases fs source dest with
    ⟨result, heq, -⟩ | ⟨-, hbelow, habove, ⟨_, hcopy, heq⟩ | ⟨hcopy, heq⟩⟩
  · rw [heq]
    exact Or.inl (SameState.refl fs)
  · rw [heq]
    exact Or.inl (commit_sameState hcopy)
  · -- The copy cannot have put the source out of reach, so only the storage can have refused.
    obtain ⟨after, hafter, -⟩ :=
      Node.exists_unlink_of_copyTo (copy_eq_ok hcopy) hbelow habove
    rw [heq] at h ⊢
    exact Or.inr ⟨hcopy, commit_error_of_edit_ok ⟨after, hafter⟩ h, commit_sameState h⟩

/-- Whatever the state, the paths and the storage: a change that fails leaves the tree, the
bookmarks and the stored texts as they were, but for a move whose copy was stored and whose removal
was refused, which leaves them as the copy does. -/
theorem failed_change_sameState {fs : FileSystem} (hs : fs.bookmarks.Sorted) {c : Change}
    {failure : Failure} (h : (fs.change c).1 = .error failure) :
    SameState fs (fs.change c).2 ∨
      ∃ source dest, c = .move source dest ∧ (fs.change (.copy source dest)).1 = .ok () ∧
        (∃ words, (fs.change (.copy source dest)).2.storage.refused? .save treeKey = some words ∧
          failure = .storage words) ∧
        SameState (fs.change (.copy source dest)).2 (fs.change c).2 := by
  -- a move saves twice, so it alone can be left halfway
  by_cases hmove : ∃ source dest, c = .move source dest
  · obtain ⟨source, dest, rfl⟩ := hmove
    exact (move_failed h).imp_right fun hhalf => ⟨source, dest, rfl, hhalf⟩
  · left
    cases hmarks : c.ofBookmarks with
    | false =>
      obtain ⟨edit, -, heq⟩ :=
        change_eq_commit fs hmarks fun source dest heq => hmove ⟨source, dest, heq⟩
      rw [heq] at h ⊢
      exact commit_sameState h
    | true =>
      rcases change_bookmarks_cases hs hmarks with ⟨_, -, heq⟩ | ⟨_, -, heq⟩
      · rw [heq]
        exact SameState.refused fs
      · rw [heq] at h
        cases h

/-- A storage that refuses every save but the first. -/
def savesOnce : Storage :=
  { refusal := fun call _ made => if call = .save ∧ 0 < made then some "full" else none }

/-- A file whose move is refused half way, and stands at both places. -/
theorem half_moved_sameState :
    let fs : FileSystem :=
      { root := .dir [("a", .file "x" ⟨1, 2⟩)] ⟨0, 0⟩, bookmarks := [], storage := savesOnce
        now := 5, options := {} }
    (fs.change (.move "/a" "/b")).1 = .error (.storage "full") ∧
      SameState (fs.change (.copy "/a" "/b")).2 (fs.change (.move "/a" "/b")).2 := by
  intro fs
  have hfailed : (fs.change (.move "/a" "/b")).1 = .error (.storage "full") := rfl
  rcases failed_change_sameState Entries.sorted_nil hfailed with hsame | ⟨_, _, hmove, -, -, hcopied⟩
  · -- Nothing would have changed, yet there is a second file.
    have hnames : (fs.change (.move "/a" "/b")).2.root.find? ["b"] = fs.root.find? ["b"] := by
      rw [hsame.root]
    cases hnames
  · cases hmove
    exact ⟨hfailed, hcopied⟩

end SimTerm.FileSystem

import SimTerm.Proofs.FileSystem.Durability
import SimTerm.Proofs.FileSystem.Transfer

/-!
# A file system behaves as a flat map

Over a storage that refuses nothing a file system cannot be told from the flat map of its paths:
whatever changes are made, each is answered as on the map, and in the end the same stands at every
path (`changes_seen`). The step is `change_seen`, and `Sound` is what it needs and keeps.
-/

namespace SimTerm

open FileSystem (Change)

namespace PathMap

/-- A change on the map of the tree. The bookmarks are not on it. -/
noncomputable def change (now : Millis) (m : PathMap) : Change → Except FileError PathMap
  | .writeFile path content => m.write now (Path.segments path) content
  | .makeFile path => m.write now (Path.segments path) ""
  | .makeDir path => m.makeDir now (Path.segments path)
  | .removeDir path => m.removeDir (Path.segments path)
  | .removeFile path => m.removeFile (Path.segments path)
  | .touch path => m.touch now (Path.segments path)
  | .copy source dest => m.copy now (Path.segments source) dest
  | .move source dest => m.move now source dest
  | .addBookmark .. => .ok m
  | .removeBookmark _ => .ok m

/-- The answer to a change, and the map after it; a refused change leaves it as it was. -/
def settle (m : PathMap) : Except FileError PathMap → Except Failure Unit × PathMap
  | .ok after => (.ok (), after)
  | .error cause => (.error (.file cause), m)

/-- The answers to changes, each made at its moment, and the map after them. -/
noncomputable def changes (m : PathMap) :
    List (Millis × Change) → List (Except Failure Unit) × PathMap
  | [] => ([], m)
  | (now, c) :: steps =>
    let (answer, after) := m.settle (m.change now c)
    let (answers, last) := after.changes steps
    (answer :: answers, last)

end PathMap

namespace FileSystem

/-- The answers to changes, each made at its moment, and the file system after them. -/
def changes (fs : FileSystem) : List (Millis × Change) → List (Except Failure Unit) × FileSystem
  | [] => ([], fs)
  | (now, c) :: steps =>
    let (answer, after) := { fs with now }.change c
    let (answers, last) := after.changes steps
    (answer :: answers, last)

/-- What is seen of a call: its answer, and what stands at the paths afterwards. -/
def seen {α : Type} (answer : α × FileSystem) : α × PathMap :=
  (answer.1, answer.2.root.flat)

/-! ## One change -/

/-- What is seen of a change that realizes one of the flat map is what the flat map says. -/
theorem Realizes.seen {fs : FileSystem} {answer : Except Failure Unit × FileSystem}
    {spec : Except FileError PathMap} (h : Realizes fs answer spec) :
    seen answer = fs.root.flat.settle spec := by
  cases spec with
  | error cause =>
    rw [Realizes] at h
    rw [h]
    rfl
  | ok m =>
    obtain ⟨root, hflat, heq⟩ := h
    rw [heq, ← hflat]
    rfl

/-- Every change of the tree but a move commits an edit that is the change of the flat map. -/
theorem change_eq_commit_flat {fs : FileSystem} (hroot : fs.root.isDir = true) {c : Change}
    (htree : c.ofBookmarks = false) (hmove : ∀ source dest, c ≠ .move source dest) :
    ∃ edit, fs.change c = fs.commit edit ∧
      (edit fs.root).map Node.flat = fs.root.flat.change fs.now c := by
  cases c with
  | writeFile path content => exact ⟨_, rfl, Node.flat_putFile _ _ content _⟩
  | makeFile path => exact ⟨_, rfl, Node.flat_putFile _ _ "" _⟩
  | makeDir path => exact ⟨_, rfl, Node.flat_makeDir _ _ _⟩
  | removeDir path => exact ⟨_, rfl, Node.flat_removeDir _ _⟩
  | removeFile path => exact ⟨_, rfl, Node.flat_removeFile hroot _⟩
  | touch path => exact ⟨_, rfl, Node.flat_touchAt _ _ _⟩
  | copy source dest => exact ⟨_, rfl, Node.flat_copyTo _ _ _ _⟩
  | move source dest => exact absurd rfl (hmove source dest)
  | addBookmark name path => cases htree
  | removeBookmark name => cases htree

/-- Where the storage takes what is saved, every change of the tree but a move realizes the change
of the flat map. -/
theorem change_realizes {fs : FileSystem} (hroot : fs.root.isDir = true)
    (hsave : fs.storage.refused? .save treeKey = none) {c : Change}
    (htree : c.ofBookmarks = false) (hmove : ∀ source dest, c ≠ .move source dest) :
    Realizes fs (fs.change c) (fs.root.flat.change fs.now c) := by
  obtain ⟨edit, heq, hflat⟩ := change_eq_commit_flat hroot htree hmove
  rw [heq]
  exact commit_realizes hsave hflat

/-- Where the storage takes what is saved, a move is seen as the move of the flat map. -/
theorem move_seen {fs : FileSystem} (h : fs.storage.AcceptsSaves treeKey) (source dest : String) :
    seen (fs.move source dest) = fs.root.flat.settle (fs.root.flat.move fs.now source dest) := by
  unfold PathMap.move
  by_cases hsame : Path.segments source = Path.segments dest
  · simp only [move_of_same hsame, if_pos hsame]
    rw [Node.flat]
    cases fs.root.find? (Path.segments source) <;> rfl
  by_cases hwithin : Path.segments source <+: Path.segments dest ∨
      Path.segments dest <+: Path.segments source
  · simp only [move_of_within hsame hwithin, if_neg hsame, if_pos hwithin]
    rfl
  obtain ⟨hsrc, hdst⟩ := not_or.1 hwithin
  simp only [if_neg hsame, if_neg hwithin]
  rcases move_apart_cases fs hsrc hdst with
    ⟨hrefused, hmove, -⟩ | ⟨copied, after, hcopied, hafter, -, ⟨words, hwords, -⟩ | hmove⟩
  · -- only a copy that the tree refuses is left: the storage takes every save
    have hcopy := copy_realizes (h _) source dest
    rw [hmove, hcopy.seen]
    cases hspec : fs.root.flat.copy fs.now (Path.segments source) dest with
    | error cause => rfl
    | ok m =>
      rw [hspec] at hcopy
      obtain ⟨root, -, heq⟩ := hcopy
      rw [heq] at hrefused
      exact absurd rfl hrefused
  · cases (h _).symm.trans hwords
  · have hspec : fs.root.flat.copy fs.now (Path.segments source) dest = .ok copied.flat := by
      rw [← Node.flat_copyTo, hcopied]
      rfl
    rw [hmove, hspec, Except.map, ← Node.flat_after_move hcopied hsrc hdst hafter]
    rfl

/-- A change of the bookmarks succeeds on a reliable storage, and the tree is seen as before. -/
theorem change_bookmarks_seen {fs : FileSystem} (hreliable : fs.storage.Reliable)
    (hs : fs.bookmarks.Sorted) {c : Change} (h : c.ofBookmarks = true) :
    seen (fs.change c) = (.ok (), fs.root.flat) := by
  rcases change_bookmarks_cases hs h with ⟨words, hrefused, -⟩ | ⟨marks, -, heq⟩
  · cases (hreliable.refused?_eq_none .save bookmarksKey).symm.trans hrefused
  · rw [heq]
    rfl

/-- What every change needs and keeps. -/
structure Sound (fs : FileSystem) : Prop where
  reliable : fs.storage.Reliable
  isTree : fs.root.IsTree
  sorted : fs.bookmarks.Sorted

/-- Every change keeps what changes need. -/
theorem Sound.change {fs : FileSystem} (h : fs.Sound) (c : Change) : (fs.change c).2.Sound := by
  refine ⟨fun call key made => ?_, change_isTree h.sorted h.isTree c, change_sorted h.sorted c⟩
  rw [change_refusal h.sorted c]
  exact h.reliable call key made

/-- A change is answered as on the flat map, and comes to the same there. -/
theorem change_seen {fs : FileSystem} (h : fs.Sound) (c : Change) :
    seen (fs.change c) = fs.root.flat.settle (fs.root.flat.change fs.now c) := by
  cases hmarks : c.ofBookmarks with
  | true =>
    rw [change_bookmarks_seen h.reliable h.sorted hmarks]
    cases c with
    | addBookmark name path => rfl
    | removeBookmark name => rfl
    | _ => cases hmarks
  | false =>
    -- a move commits twice, so it is no single edit like the others
    by_cases hmove : ∃ source dest, c = .move source dest
    · obtain ⟨source, dest, rfl⟩ := hmove
      exact move_seen (h.reliable .save treeKey) source dest
    · exact (change_realizes h.isTree.isDir (h.reliable.refused?_eq_none .save treeKey) hmarks
        fun source dest heq => hmove ⟨source, dest, heq⟩).seen

/-! ## Any changes -/

/-- Changes are answered as on the flat map, and come to the same there. -/
theorem changes_seen {fs : FileSystem} (h : fs.Sound) (steps : List (Millis × Change)) :
    seen (fs.changes steps) = fs.root.flat.changes steps := by
  induction steps generalizing fs with
  | nil => rfl
  | cons step steps ih =>
    obtain ⟨now, c⟩ := step
    have hnow : Sound { fs with now } := ⟨h.reliable, h.isTree, h.sorted⟩
    have hfirst : seen ({ fs with now }.change c) =
        fs.root.flat.settle (fs.root.flat.change now c) := change_seen hnow c
    have hrest := ih (hnow.change c)
    rw [changes, PathMap.changes, ← hfirst]
    exact congrArg (Prod.map (List.cons ({ fs with now }.change c).1) id) hrest

end FileSystem

end SimTerm

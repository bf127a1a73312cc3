import SimTerm.Proofs.FileSystem.Commit
import SimTerm.Proofs.Node.Flat

/-!
# The file system as a flat map

What a file system answers, and the tree it has afterwards, can be told from the flat map of its
tree: `tree_refines_pathMap` for the changes of one path, as long as the storage takes what is saved.
A call `Realizes` a change of the flat map if it is refused for the same reason, or has made the
change in memory and in the storage and left everything else alone.
-/

namespace SimTerm.FileSystem

/-- What is read is what stands at the path. -/
theorem read?_eq (fs : FileSystem) (path : String) :
    fs.read? path = (fs.root.flat (Path.segments path)).bind Record.content? := by
  rw [read?, node?, Node.flat]
  cases fs.root.find? (Path.segments path) with
  | none => rfl
  | some n => cases n <;> rfl

/-- The call is answered as a change of the flat map is: refused for the same reason and with
nothing changed, or made in memory and in the storage. -/
def Realizes (fs : FileSystem) (answer : Except Failure Unit × FileSystem) :
    Except FileError PathMap → Prop
  | .error cause => answer = (.error (.file cause), fs)
  | .ok m => ∃ root, root.flat = m ∧ answer = (.ok (), fs.withTree root)

/-- Committing an edit realizes what the edit is on the flat map. -/
theorem commit_realizes {fs : FileSystem} {edit : Node → Except FileError Node}
    {spec : Except FileError PathMap} (hsave : fs.storage.refused? .save treeKey = none)
    (hedit : (edit fs.root).map Node.flat = spec) : Realizes fs (fs.commit edit) spec := by
  subst hedit
  cases hroot : edit fs.root with
  | error cause => exact commit_of_error hroot
  | ok root => exact ⟨root, rfl, commit_of_saved hroot hsave⟩

/-- Where the storage takes what is saved, every change of one path is the change of that name on
the flat map of the tree: it succeeds or is refused as the flat map says, with the same reason, and
a change that succeeds changes the flat map as the flat map says. -/
theorem tree_refines_pathMap (fs : FileSystem) (hroot : fs.root.isDir = true)
    (hsave : fs.storage.refused? .save treeKey = none) (path content : String) :
    let m := fs.root.flat
    let segs := Path.segments path
    (fs.node? path).map Node.record = m segs ∧
      Realizes fs (fs.writeFile path content) (m.write fs.now segs content) ∧
      Realizes fs (fs.makeFile path) (m.write fs.now segs "") ∧
      Realizes fs (fs.makeDir path) (m.makeDir fs.now segs) ∧
      Realizes fs (fs.removeDir path) (m.removeDir segs) ∧
      Realizes fs (fs.removeFile path) (m.removeFile segs) ∧
      Realizes fs (fs.touch path) (m.touch fs.now segs) := by
  intro m segs
  refine ⟨rfl, ?_, ?_, ?_, ?_, ?_, ?_⟩
  · exact commit_realizes hsave (Node.flat_putFile fs.now segs content fs.root)
  · exact commit_realizes hsave (Node.flat_putFile fs.now segs "" fs.root)
  · exact commit_realizes hsave (Node.flat_makeDir fs.now segs fs.root)
  · exact commit_realizes hsave (Node.flat_removeDir path fs.root)
  · exact commit_realizes hsave (Node.flat_removeFile hroot path)
  · exact commit_realizes hsave (Node.flat_touchAt fs.now segs fs.root)

/-- A file is written over by a path with slashes to spare: it keeps the moment it was created. -/
theorem tree_refines_pathMap_overwritten :
    let fs : FileSystem :=
      { root := .dir [("a", .dir [("f", .file "x" ⟨1, 2⟩)] ⟨0, 0⟩)] ⟨0, 0⟩, bookmarks := []
        storage := {}, now := 5, options := {} }
    fs.root.isDir = true ∧ fs.storage.refused? .save treeKey = none ∧
      ∃ root, fs.writeFile "//a/f/" "y" = (.ok (), fs.withTree root) ∧
        root.flat ["a", "f"] = some (.file "y" ⟨1, 5⟩) ∧ root.flat ["a"] = some (.dir ⟨0, 0⟩) := by
  intro fs
  have hwritten := (tree_refines_pathMap fs rfl rfl "//a/f/" "y").2.1
  have hsegs : Path.segments "//a/f/" = ["a", "f"] := by decide
  have hspec : fs.root.flat.write 5 ["a", "f"] "y" =
      .ok (Function.update fs.root.flat ["a", "f"] (some (.file "y" ⟨1, 5⟩))) := rfl
  rw [hsegs, hspec] at hwritten
  obtain ⟨root, hflat, hanswer⟩ := hwritten
  refine ⟨rfl, rfl, root, hanswer, ?_, ?_⟩
  · rw [hflat, Function.update_self]
  · rw [hflat, Function.update_of_ne (by decide)]
    rfl

end SimTerm.FileSystem

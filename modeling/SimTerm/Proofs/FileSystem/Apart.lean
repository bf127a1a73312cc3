import SimTerm.Proofs.FileSystem.OnePath
import SimTerm.Proofs.Node.Extensional

/-!
# Changes at paths that are apart

Two changes of one path each do not get in each other's way if neither path is below the other: the
one cannot see what the other has done (`change_alike`). So it does not matter which is made first,
`changes_commute`. Their paths may still have directories in common and end in the same one.
-/

namespace SimTerm.FileSystem

open PathMap (SameAround)

/-- A change with a place in the tree is no change of the bookmarks. -/
theorem Change.ofBookmarks_of_place? {c : Change} {place : String} (h : c.place? = some place) :
    c.ofBookmarks = false := by
  cases c with
  | addBookmark name path => cases h
  | removeBookmark name => cases h
  | _ => rfl

/-- A change with one place in the tree is no move. -/
theorem Change.ne_move_of_place? {c : Change} {place : String} (h : c.place? = some place)
    (source dest : String) : c ≠ .move source dest := by
  rintro rfl
  cases h

/-- What a change of one path needs of the tree and the storage, and leaves there. -/
structure Ready (fs : FileSystem) : Prop where
  isTree : fs.root.IsTree
  accepts : fs.storage.AcceptsSaves treeKey

section Place

variable {fs gs : FileSystem} {c : Change} {place : String} (hc : c.place? = some place)

include hc in
/-- A change of one path leaves a tree a tree. -/
theorem change_place_isTree (h : fs.root.IsTree) : (fs.change c).2.root.IsTree := by
  obtain ⟨edit, hedit, heq⟩ :=
    change_eq_commit fs (Change.ofBookmarks_of_place? hc) (Change.ne_move_of_place? hc)
  rw [heq]
  exact commit_isTree hedit h

include hc in
/-- Where the storage takes what is saved, a change of one path is that change of the flat map. -/
theorem Ready.change_realizes (h : fs.Ready) :
    Realizes fs (fs.change c) (fs.root.flat.change fs.now c) :=
  FileSystem.change_realizes h.isTree.isDir (h.accepts _) (Change.ofBookmarks_of_place? hc)
    (Change.ne_move_of_place? hc)

include hc in
/-- A change of one path is answered alike on two trees that cannot be told apart around the path:
it is refused on both for the same reason, or puts the same at the path of both. -/
theorem change_alike (h : fs.Ready) (h' : gs.Ready) (hnow : gs.now = fs.now)
    (hsame : SameAround (Path.segments place) fs.root.flat gs.root.flat) :
    (∃ cause, fs.change c = (.error (.file cause), fs) ∧
        gs.change c = (.error (.file cause), gs)) ∨
      ∃ r root root', root.flat = Function.update fs.root.flat (Path.segments place) r ∧
        root'.flat = Function.update gs.root.flat (Path.segments place) r ∧
        fs.change c = (.ok (), fs.withTree root) ∧ gs.change c = (.ok (), gs.withTree root') := by
  have hchange := h.change_realizes hc
  have hchange' := h'.change_realizes hc
  rw [hnow] at hchange'
  rcases PathMap.change_local fs.now hc _ _ hsame with ⟨cause, hm, hm'⟩ | ⟨r, -, hm, hm'⟩
  · dsimp only at hm hm'
    rw [hm] at hchange
    rw [hm'] at hchange'
    exact Or.inl ⟨cause, hchange, hchange'⟩
  · dsimp only at hm hm'
    rw [hm] at hchange
    rw [hm'] at hchange'
    obtain ⟨root, hflat, heq⟩ := hchange
    obtain ⟨root', hflat', heq'⟩ := hchange'
    exact Or.inr ⟨r, root, root', hflat, hflat', heq, heq'⟩

include hc in
/-- A change leaves all as it was around a path that is apart. -/
theorem Ready.change_apart (h : fs.Ready) :
    (fs.change c).2.Ready ∧ (fs.change c).2.now = fs.now ∧
      ∀ path, ¬ path <+: Path.segments place → ¬ Path.segments place <+: path →
        SameAround path fs.root.flat (fs.change c).2.root.flat := by
  have hisTree := change_place_isTree hc h.isTree
  rcases change_alike hc h h rfl (.refl _ fs.root.flat) with
    ⟨cause, heq, -⟩ | ⟨r, root, -, hflat, -, heq, -⟩
  · rw [heq]
    exact ⟨h, rfl, fun path _ _ => .refl path fs.root.flat⟩
  · rw [heq] at hisTree ⊢
    refine ⟨⟨hisTree, h.accepts⟩, rfl, fun path hpath hplace => ?_⟩
    have hafter : SameAround path fs.root.flat root.flat := hflat ▸ .update hpath hplace _ r
    exact hafter

end Place

/-- A change that is refused, before another one and after it, leaves only the other. -/
theorem commute_of_refused {fs : FileSystem} {c d : Change} {failure : Failure}
    (hfirst : fs.change c = (.error failure, fs))
    (hsecond : (fs.change d).2.change c = (.error failure, (fs.change d).2)) :
    let cd := (fs.change c).2.change d
    let dc := (fs.change d).2.change c
    dc.1 = (fs.change c).1 ∧ cd.1 = (fs.change d).1 ∧ cd.2.root = dc.2.root ∧
      cd.2.storage.texts = dc.2.storage.texts := by
  intro cd dc
  have hcd : cd = fs.change d := congrArg (fun answer => answer.2.change d) hfirst
  have hdc : dc = (.error failure, (fs.change d).2) := hsecond
  rw [hcd, hdc, hfirst]
  exact ⟨rfl, rfl, rfl, rfl⟩

/-- Two changes are made in either order, each of one path, where the storage takes what is saved and
neither path is a prefix of the other. Each is answered as if it were made alone, and in the end the
tree is the same, and the same texts are stored. -/
theorem changes_commute {fs : FileSystem} (htree : fs.root.IsTree)
    (haccepts : fs.storage.AcceptsSaves treeKey) {c d : Change} {place other : String}
    (hc : c.place? = some place) (hd : d.place? = some other)
    (hplace : ¬ Path.segments place <+: Path.segments other)
    (hother : ¬ Path.segments other <+: Path.segments place) :
    let cd := (fs.change c).2.change d
    let dc := (fs.change d).2.change c
    dc.1 = (fs.change c).1 ∧ cd.1 = (fs.change d).1 ∧ cd.2.root = dc.2.root ∧
      cd.2.storage.texts = dc.2.storage.texts := by
  intro cd dc
  have hfs : fs.Ready := ⟨htree, haccepts⟩
  obtain ⟨hafterC, hnowC, hapartC⟩ := hfs.change_apart hc
  obtain ⟨hafterD, hnowD, hapartD⟩ := hfs.change_apart hd
  have halikeC := change_alike hc hfs hafterD hnowD (hapartD _ hplace hother)
  have halikeD := change_alike hd hfs hafterC hnowC (hapartC _ hother hplace)
  rcases halikeC with ⟨cause, hfirst, hsecond⟩ | ⟨r, rootC, rootDC, hC, hDC, hfirst, hsecond⟩
  · exact commute_of_refused hfirst hsecond
  rcases halikeD with ⟨cause, hfirst', hsecond'⟩ | ⟨r', rootD, rootCD, hD, hCD, hfirst', hsecond'⟩
  · obtain ⟨hanswerD, hanswerC, hroot, htexts⟩ := commute_of_refused hfirst' hsecond'
    exact ⟨hanswerC, hanswerD, hroot.symm, htexts.symm⟩
  -- both are made, and the two maps are changed at two different paths
  have hisTree : cd.2.root.IsTree := change_place_isTree hd hafterC.isTree
  have hisTree' : dc.2.root.IsTree := change_place_isTree hc hafterD.isTree
  have hcd : cd = (.ok (), (fs.change c).2.withTree rootCD) := hsecond'
  have hdc : dc = (.ok (), (fs.change d).2.withTree rootDC) := hsecond
  have hne : Path.segments place ≠ Path.segments other := fun heq =>
    hplace (heq ▸ List.prefix_refl _)
  have hflat : rootCD.flat = rootDC.flat := by
    rw [hCD, hDC, hfirst, hfirst']
    show Function.update rootC.flat _ _ = Function.update rootD.flat _ _
    rw [hC, hD, Function.update_comm hne]
  rw [hcd] at hisTree
  rw [hdc] at hisTree'
  have hroot : rootCD = rootDC := Node.eq_of_flat _ _ hisTree.ordered hisTree'.ordered hflat
  rw [hcd, hdc, hroot, hfirst, hfirst']
  refine ⟨rfl, rfl, rfl, ?_⟩
  show Entries.insert _ _ (Entries.insert _ _ _) = Entries.insert _ _ (Entries.insert _ _ _)
  rw [Entries.insert_insert, Entries.insert_insert]

/-- A file is written and an empty directory removed next to each other, by paths with slashes to
spare; both are done, and nothing but the file is left in either case. -/
theorem changes_commute_in_one_directory :
    let fs : FileSystem :=
      { root := .dir [("a", .dir [("d", Node.newDir 1), ("f", Node.newFile 2 "x")] ⟨3, 4⟩)] ⟨0, 0⟩
        bookmarks := [], storage := {}, now := 5, options := {} }
    let written := (fs.change (.writeFile "/a/f" "y")).2
    let removed := (fs.change (.removeDir "a//d/")).2
    (removed.change (.writeFile "/a/f" "y")).1 = .ok () ∧
      (written.change (.removeDir "a//d/")).1 = .ok () ∧
      (removed.change (.writeFile "/a/f" "y")).2.root =
        .dir [("a", .dir [("f", .file "y" ⟨2, 5⟩)] ⟨3, 4⟩)] ⟨0, 0⟩ ∧
      (written.change (.removeDir "a//d/")).2.root =
        .dir [("a", .dir [("f", .file "y" ⟨2, 5⟩)] ⟨3, 4⟩)] ⟨0, 0⟩ := by
  intro fs written removed
  have hentries := (Node.isTable_nil.insert (Node.newFile_ordered 2 "x") "f").insert
    (Node.newDir_isTree 1).ordered "d"
  have htree : fs.root.IsTree :=
    (Node.isTable_nil.insert (hentries.dir ⟨3, 4⟩).ordered "a").dir ⟨0, 0⟩
  obtain ⟨hwrite, hremove, hroot, -⟩ :=
    changes_commute (c := .writeFile "/a/f" "y") (d := .removeDir "a//d/") htree (fun _ => rfl)
      rfl rfl (by decide) (by decide)
  have hlast : (removed.change (.writeFile "/a/f" "y")).2.root =
      .dir [("a", .dir [("f", .file "y" ⟨2, 5⟩)] ⟨3, 4⟩)] ⟨0, 0⟩ := rfl
  exact ⟨hwrite.trans rfl, hremove.trans rfl, hlast, hroot.trans hlast⟩

end SimTerm.FileSystem

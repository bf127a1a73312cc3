import SimTerm.Proofs.FileSystem.Refinement

/-!
# What files contain

The content of a file is written by a call or copied from another file, and nothing else puts a text
into a file. So a property that all contents have, the empty one too, stays one that all have as
long as it is true of everything that is written: `Holds.change`. This does not depend on what
the storage takes or refuses, as a change that is refused half way has come to some other change.
-/

namespace SimTerm

open FileSystem (Change)

namespace PathMap

/-- Every content of a file on the map has the property. -/
def Contents (p : String → Prop) (m : PathMap) : Prop :=
  ∀ path content s, m path = some (.file content s) → p content

variable {p path : String → Prop} {m after : PathMap}

/-- A map keeps contents with the property where what is put at a path has none but such. -/
theorem Contents.update (h : m.Contents p) {r : Option Record}
    (hr : ∀ content s, r = some (.file content s) → p content) (path : List String) :
    Contents p (Function.update m path r) := by
  intro other content s hother
  by_cases hpath : other = path
  · rw [hpath, Function.update_self] at hother
    exact hr content s hother
  · rw [Function.update_of_ne hpath] at hother
    exact h other content s hother

/-- A file with the property may be put anywhere. -/
theorem Contents.update_file (h : m.Contents p) {content : String} (hcontent : p content)
    (path : List String) (s : Stamps) :
    Contents p (Function.update m path (some (.file content s))) := by
  refine h.update (fun other s' hother => ?_) path
  obtain ⟨rfl, -⟩ := Record.file.inj (Option.some.inj hother)
  exact hcontent

theorem Contents.update_dir (h : m.Contents p) (path : List String) (s : Stamps) :
    Contents p (Function.update m path (some (.dir s))) := by
  refine h.update (fun content s' hfile => ?_) path
  cases hfile

theorem Contents.update_none (h : m.Contents p) (path : List String) :
    Contents p (Function.update m path none) := by
  refine h.update (fun content s hfile => ?_) path
  cases hfile

/-- A branch whose contents have the property may be grafted anywhere. -/
theorem Contents.graft {branch : PathMap} (h : m.Contents p) (hbranch : branch.Contents p)
    (path : List String) : (m.graft path branch).Contents p := by
  intro other content s hother
  by_cases hpath : path <+: other
  · obtain ⟨rest, rfl⟩ := hpath
    rw [graft_append] at hother
    exact hbranch rest content s hother
  · have hsame : m.graft path branch other = m other := graft_of_not_prefix hpath m branch
    rw [hsame] at hother
    exact h other content s hother

theorem contents_nowhere : nowhere.Contents p :=
  fun _ _ _ hnone => nomatch hnone

/-- A write of a content with the property keeps the property of all contents. -/
theorem Contents.write (h : m.Contents p) {now : Millis} {path : List String} {content : String}
    (hcontent : p content) (hafter : m.write now path content = .ok after) : after.Contents p := by
  unfold PathMap.write at hafter
  split at hafter
  · cases hafter
  · split at hafter
    · split at hafter
      · cases hafter
      · obtain rfl := Except.ok.inj hafter
        exact h.update_file hcontent path _
      · obtain rfl := Except.ok.inj hafter
        exact h.update_file hcontent path _
    · cases hafter

/-- A new directory has no content. -/
theorem Contents.makeDir (h : m.Contents p) {now : Millis} {path : List String}
    (hafter : m.makeDir now path = .ok after) : after.Contents p := by
  unfold PathMap.makeDir at hafter
  split at hafter
  · cases hafter
  · split at hafter
    · split at hafter
      · cases hafter
      · obtain rfl := Except.ok.inj hafter
        exact h.update_dir path _
    · cases hafter

/-- Removing a directory adds no content. -/
theorem Contents.removeDir (h : m.Contents p) {path : List String}
    (hafter : m.removeDir path = .ok after) : after.Contents p := by
  unfold PathMap.removeDir at hafter
  split at hafter
  · cases hafter
  · cases hafter
  · split at hafter
    · cases hafter
    · split at hafter
      · cases hafter
      · obtain rfl := Except.ok.inj hafter
        exact h.update_none path

theorem Contents.removeFile (h : m.Contents p) {path : List String}
    (hafter : m.removeFile path = .ok after) : after.Contents p := by
  unfold PathMap.removeFile at hafter
  split at hafter
  · cases hafter
  · cases hafter
  · obtain rfl := Except.ok.inj hafter
    exact h.update_none path

/-- A touch adds the empty content at most. -/
theorem Contents.touch (h : m.Contents p) (hempty : p "") {now : Millis} {path : List String}
    (hafter : m.touch now path = .ok after) : after.Contents p := by
  unfold PathMap.touch at hafter
  split at hafter
  · next r hr =>
    obtain rfl := Except.ok.inj hafter
    cases r with
    | file content s => exact h.update_file (h path content s hr) path _
    | dir s => exact h.update_dir path _
  · exact h.write hempty hafter

/-- A copied file has the content of the one it was copied from. -/
theorem Contents.copy (h : m.Contents p) {now : Millis} {source : List String} {dest : String}
    (hafter : m.copy now source dest = .ok after) : after.Contents p := by
  rw [eq_graft_of_copy hafter]
  refine h.graft (fun rest content s hrest => ?_) _
  obtain ⟨r, hr, hrenewed⟩ := Option.map_eq_some_iff.1 hrest
  cases r with
  | file old s' =>
    obtain ⟨rfl, -⟩ := Record.file.inj hrenewed
    exact h (source ++ rest) old s' hr
  | dir s' => cases hrenewed

/-- A move adds no content, as its contents were there before. -/
theorem Contents.move (h : m.Contents p) {now : Millis} {source dest : String}
    (hafter : m.move now source dest = .ok after) : after.Contents p := by
  rcases move_ok_cases hafter with rfl | ⟨copied, hcopied, rfl⟩
  · exact h
  · exact (h.copy hcopied).graft contents_nowhere _

/-- A change of the map keeps the property of all contents if it writes nothing else. -/
theorem Contents.change (h : m.Contents p) (hempty : p "") {now : Millis} {c : Change}
    (hc : c.Granted path p) (hafter : m.change now c = .ok after) : after.Contents p := by
  cases c with
  | writeFile path content => exact h.write hc hafter
  | makeFile path => exact h.write hempty hafter
  | makeDir path => exact h.makeDir hafter
  | removeDir path => exact h.removeDir hafter
  | removeFile path => exact h.removeFile hafter
  | touch path => exact h.touch hempty hafter
  | copy source dest => exact h.copy hafter
  | move source dest => exact h.move hafter
  | addBookmark name path => exact Except.ok.inj hafter ▸ h
  | removeBookmark name => exact Except.ok.inj hafter ▸ h

end PathMap

/-- What a directory contains is what its entries contain. -/
theorem Node.contents_dir {p : String → Prop} {es : Entries Node}
    (h : ∀ e ∈ es, e.2.flat.Contents p) (s : Stamps) : (Node.dir es s).flat.Contents p := by
  intro path content s' hfile
  cases path with
  | nil => cases hfile
  | cons name names =>
    rw [Node.flat_dir_cons] at hfile
    obtain ⟨n, hn, hbelow⟩ := Option.bind_eq_some_iff.1 hfile
    exact h _ (Entries.mem_of_get? hn) names content s' hbelow

namespace FileSystem

/-- The first map has become the second by a change, has stayed as it was because the change was
refused, or has been left by a move that was refused between its two steps. -/
def Becomes (now : Millis) (m : PathMap) (c : Change) (after : PathMap) : Prop :=
  after = m ∨ m.change now c = .ok after ∨
    ∃ source dest, c = .move source dest ∧ m.copy now (Path.segments source) dest = .ok after

/-- A commit leaves the tree as it was, or as the edit makes it. -/
theorem commit_flat_cases {fs : FileSystem} {edit : Node → Except FileError Node}
    {spec : Except FileError PathMap} (hedit : (edit fs.root).map Node.flat = spec) :
    (fs.commit edit).2.root.flat = fs.root.flat ∨ spec = .ok (fs.commit edit).2.root.flat := by
  rcases commit_cases fs edit with ⟨_, -, heq⟩ | ⟨_, -, heq⟩ | ⟨root, hroot, heq⟩
  · rw [heq]
    exact Or.inl rfl
  · rw [heq]
    exact Or.inl rfl
  · rw [heq, ← hedit, hroot]
    exact Or.inr rfl

/-- Whatever the storage refuses, a move leaves the map as it was, as after the copy, or as after
both steps. -/
theorem move_becomes (fs : FileSystem) (source dest : String) :
    Becomes fs.now fs.root.flat (.move source dest) (fs.move source dest).2.root.flat := by
  by_cases hsame : Path.segments source = Path.segments dest
  · rw [move_of_same hsame]
    exact Or.inl rfl
  by_cases hwithin : Path.segments source <+: Path.segments dest ∨
      Path.segments dest <+: Path.segments source
  · rw [move_of_within hsame hwithin]
    exact Or.inl rfl
  obtain ⟨hsrc, hdst⟩ := not_or.1 hwithin
  have hcopy := Node.flat_copyTo fs.now (Path.segments source) dest fs.root
  rcases move_apart_cases fs hsrc hdst with
    ⟨hfailed, hmove, -⟩ | ⟨copied, after, hcopied, hafter, -, ⟨_, -, hmove⟩ | hmove⟩
  · -- the copy failed: whether the map is the old one or the copied one, it may be
    rcases commit_flat_cases hcopy with hsame | hcopied
    · rw [hmove]
      exact Or.inl hsame
    · rw [hmove]
      exact Or.inr (Or.inr ⟨source, dest, rfl, hcopied⟩)
  · rw [hcopied] at hcopy
    rw [hmove]
    exact Or.inr (Or.inr ⟨source, dest, rfl, hcopy.symm⟩)
  · -- both steps are made
    rw [hcopied] at hcopy
    have hspec : fs.root.flat.move fs.now source dest =
        .ok (copied.flat.graft (Path.segments source) PathMap.nowhere) := by
      unfold PathMap.move
      dsimp only
      rw [if_neg hsame, if_neg hwithin, ← hcopy]
      rfl
    rw [hmove]
    refine Or.inr (Or.inl (hspec.trans (congrArg Except.ok ?_)))
    exact (Node.flat_after_move hcopied hsrc hdst hafter).symm

/-- Whatever the storage refuses, a change comes to some change of the flat map. -/
theorem change_becomes {fs : FileSystem} (hs : fs.bookmarks.Sorted) (hroot : fs.root.isDir = true)
    (c : Change) : Becomes fs.now fs.root.flat c (fs.change c).2.root.flat := by
  cases hmarks : c.ofBookmarks with
  | true => exact Or.inl (congrArg Node.flat (change_marksStep hs hmarks).root)
  | false =>
    by_cases hmove : ∃ source dest, c = .move source dest
    · obtain ⟨source, dest, rfl⟩ := hmove
      exact move_becomes fs source dest
    · obtain ⟨edit, heq, hflat⟩ :=
        change_eq_commit_flat hroot hmarks fun source dest heq => hmove ⟨source, dest, heq⟩
      rw [heq]
      exact (commit_flat_cases hflat).imp_right Or.inl

/-- A default tree has no files. -/
theorem defaultTree_contents (p : String → Prop) (options : TreeOptions) (now : Millis) :
    (options.defaultTree now).flat.Contents p := by
  have hempty : (Node.newDir now).flat.Contents p := Node.contents_dir (List.forall_mem_nil _) _
  unfold TreeOptions.defaultTree
  split
  · exact hempty
  · have hhome := Node.contents_dir
      (List.forall_mem_singleton.2 hempty : ∀ e ∈ [(options.user, Node.newDir now)], _)
      (Node.stampedAt now)
    exact Node.contents_dir
      (List.forall_mem_cons.2 ⟨hempty, List.forall_mem_singleton.2 hhome⟩) _

/-- All contents of files have one property, and all targets of bookmarks another. -/
structure Holds (path content : String → Prop) (fs : FileSystem) : Prop where
  isTree : fs.root.IsTree
  sorted : fs.bookmarks.Sorted
  targets : ∀ mark ∈ fs.bookmarks, path mark.2
  contents : fs.root.flat.Contents content

namespace Holds

variable {path content : String → Prop} {fs : FileSystem}

/-- The content of a file that is read has the property. -/
theorem read (h : fs.Holds path content) {place text : String}
    (hread : fs.read? place = some text) : content text := by
  obtain ⟨n, hn, htext⟩ := Option.bind_eq_some_iff.1 hread
  cases n with
  | dir es s => cases htext
  | file text' s =>
    obtain rfl : text' = text := Option.some.inj htext
    exact h.contents _ _ _ (Node.flat_of_find? hn)

/-- A change keeps both properties if it writes and marks nothing else. -/
theorem change (h : fs.Holds path content) (hempty : content "") {c : Change}
    (hc : c.Granted path content) : (fs.change c).2.Holds path content := by
  have hcontents : (fs.change c).2.root.flat.Contents content := by
    -- a move that is refused halfway leaves a copy, which has no other contents either
    rcases change_becomes h.sorted h.isTree.isDir c with hsame | hchanged | ⟨_, _, -, hcopied⟩
    · rw [hsame]
      exact h.contents
    · exact h.contents.change hempty hc hchanged
    · exact h.contents.copy hcopied
  have hisTree := change_isTree h.sorted h.isTree c
  cases hmarks : c.ofBookmarks with
  | false =>
    have hsame : (fs.change c).2.bookmarks = fs.bookmarks := (change_treeStep fs hmarks).bookmarks
    exact ⟨hisTree, hsame ▸ h.sorted, hsame ▸ h.targets, hcontents⟩
  | true =>
    refine ⟨hisTree, (change_marksStep h.sorted hmarks).sorted, ?_, hcontents⟩
    cases c with
    | addBookmark name target =>
      rw [FileSystem.change]
      rcases addBookmark_cases h.sorted name target with ⟨_, -, heq⟩ | heq
      · rw [heq]
        exact h.targets
      · rw [heq]
        intro mark hmark
        rcases Entries.mem_insert hmark with rfl | hold
        · exact hc
        · exact h.targets mark hold
    | removeBookmark name =>
      rw [FileSystem.change]
      rcases removeBookmark_cases h.sorted name with ⟨_, -, heq⟩ | heq
      · rw [heq]
        exact h.targets
      · rw [heq]
        exact fun mark hmark => h.targets mark (Entries.mem_of_mem_erase hmark)
    | _ => cases hmarks

/-- A file system with a default tree and no bookmarks has nothing that could lack them. -/
theorem of_default (options : TreeOptions) (now : Millis)
    (hroot : fs.root = options.defaultTree now) (hmarks : fs.bookmarks = []) :
    fs.Holds path content := by
  refine ⟨?_, ?_, ?_, ?_⟩
  · rw [hroot]
    exact defaultTree_isTree options now
  · rw [hmarks]
    exact Entries.sorted_nil
  · rw [hmarks]
    exact List.forall_mem_nil _
  · rw [hroot]
    exact defaultTree_contents content options now

/-- A reset leaves a default tree, which has no files, and no bookmarks. -/
theorem reset (fs : FileSystem) : fs.reset.2.Holds path content :=
  of_default fs.options fs.now rfl rfl

end Holds

end FileSystem

end SimTerm

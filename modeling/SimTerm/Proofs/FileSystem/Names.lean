import SimTerm.Proofs.FileSystem.Contents
import SimTerm.Proofs.FileSystem.OnePath
import SimTerm.Proofs.Node.Occurs

/-!
# Names and addresses

Whatever paths the calls of a file system are given, names come into the tree only as segments of
these paths, and from the tree and the user it started with. So if those can be segments, then all
names in the tree can, and the path that is written from the names on the way to a node has these
names as its segments: it leads to that node and to no other, `nodes_found_by_paths`.
-/

namespace SimTerm

open FileSystem (Change)

namespace PathMap

/-- Where something stands, all names can be segments. -/
def Named (m : PathMap) : Prop :=
  ∀ path, m path ≠ none → ∀ name ∈ path, Path.IsName name

variable {m after : PathMap}

/-- What is put at a path of names keeps all paths of names. -/
theorem Named.update (h : m.Named) {path : List String} (hpath : ∀ name ∈ path, Path.IsName name)
    (r : Option Record) : Named (Function.update m path r) := by
  intro other hother
  by_cases heq : other = path
  · exact heq ▸ hpath
  · rw [Function.update_of_ne heq] at hother
    exact h other hother

/-- A branch that is grafted at a path of names keeps all paths of names. -/
theorem Named.graft {branch : PathMap} (h : m.Named) (hbranch : branch.Named) {path : List String}
    (hpath : ∀ name ∈ path, Path.IsName name) : (m.graft path branch).Named := by
  intro other hother
  by_cases hbelow : path <+: other
  · obtain ⟨rest, rfl⟩ := hbelow
    rw [graft_append] at hother
    exact List.forall_mem_append.2 ⟨hpath, hbranch rest hother⟩
  · have hsame : m.graft path branch other = m other := graft_of_not_prefix hbelow m branch
    rw [hsame] at hother
    exact h other hother

/-- The segments of every path are names. -/
theorem isName_of_mem_segments {path : String} : ∀ name ∈ Path.segments path, Path.IsName name :=
  fun _ hname => Path.isName_of_mem_segmentsOf hname

/-- A copy has the names of the branch that is copied, below the segments of the destination. -/
theorem Named.copy (h : m.Named) {now : Millis} {source : List String} {dest : String}
    (hafter : m.copy now source dest = .ok after) : after.Named := by
  rw [eq_graft_of_copy hafter]
  refine h.graft (fun rest hrest => ?_) isName_of_mem_segments
  have hsource : m (source ++ rest) ≠ none := fun hnone => hrest (by rw [hnone]; rfl)
  exact (List.forall_mem_append.1 (h (source ++ rest) hsource)).2

/-- A move leads to no path that is not one of names. -/
theorem Named.move (h : m.Named) {now : Millis} {source dest : String}
    (hafter : m.move now source dest = .ok after) : after.Named := by
  rcases move_ok_cases hafter with rfl | ⟨copied, hcopied, rfl⟩
  · exact h
  · exact (h.copy hcopied).graft (fun _ hnone => absurd rfl hnone) isName_of_mem_segments

/-- Every change brings in segments of its paths only. -/
theorem Named.change (h : m.Named) {now : Millis} {c : Change}
    (hafter : m.change now c = .ok after) : after.Named := by
  rcases change_cases hafter with
    ⟨place, r, -, -, rfl⟩ | ⟨_, _, -, hcopy⟩ | ⟨_, _, -, hmove⟩ | ⟨-, rfl⟩
  · exact h.update isName_of_mem_segments r
  · exact h.copy hcopy
  · exact h.move hmove
  · exact h

end PathMap

/-- A tree is named if its flat map is. -/
theorem Node.named_iff_flat {root : Node} (hroot : root.Ordered) :
    root.Named ↔ root.flat.Named := by
  constructor
  · intro h path hpath
    obtain ⟨n, hn⟩ := Option.ne_none_iff_exists'.1 fun hnone =>
      hpath (flat_eq_none_iff.2 hnone)
    obtain ⟨places, hoccurs⟩ := exists_occurs_of_find? hn
    exact h places path n hoccurs
  · intro h places names n hoccurs
    refine h names fun hnone => ?_
    rw [flat_of_find? (hoccurs.find? hroot)] at hnone
    cases hnone

namespace FileSystem

/-- The default tree has names for a user that can be one. -/
theorem defaultTree_named {options : TreeOptions} (huser : Path.IsName options.user)
    (now : Millis) : (options.defaultTree now).Named := by
  have hempty : (Node.newDir now).Named := Node.named_dir_iff.2 (List.forall_mem_nil _)
  unfold TreeOptions.defaultTree
  split
  · exact hempty
  · have hhome : (Node.dir [(options.user, Node.newDir now)] (Node.stampedAt now)).Named :=
      Node.named_dir_iff.2 (List.forall_mem_singleton.2 ⟨huser, hempty⟩)
    have happs : Path.IsName "apps" := ⟨by decide, by decide⟩
    have hhomes : Path.IsName "home" := ⟨by decide, by decide⟩
    exact Node.named_dir_iff.2
      (List.forall_mem_cons.2 ⟨⟨happs, hempty⟩, List.forall_mem_singleton.2 ⟨hhomes, hhome⟩⟩)

/-- All names in the tree can be segments, and so can the user's, whom a new tree has a home for. -/
structure Addressed (fs : FileSystem) : Prop where
  isTree : fs.root.IsTree
  sorted : fs.bookmarks.Sorted
  named : fs.root.Named
  user : Path.IsName fs.options.user

namespace Addressed

variable {fs : FileSystem}

/-- Every change keeps the invariant. -/
theorem change (h : fs.Addressed) (c : Change) : (fs.change c).2.Addressed := by
  have hisTree := change_isTree h.sorted h.isTree c
  have hflat := (Node.named_iff_flat h.isTree.ordered).1 h.named
  refine ⟨hisTree, change_sorted h.sorted c, (Node.named_iff_flat hisTree.ordered).2 ?_,
    (change_options h.sorted c).symm ▸ h.user⟩
  rcases change_becomes h.sorted h.isTree.isDir c with hsame | hchanged | ⟨_, _, -, hcopied⟩
  · rw [hsame]
    exact hflat
  · exact hflat.change hchanged
  · exact hflat.copy hcopied

/-- Starting over, the tree is the default one again. -/
theorem reset (h : fs.Addressed) : fs.reset.2.Addressed :=
  ⟨defaultTree_isTree fs.options fs.now, Entries.sorted_nil, defaultTree_named h.user fs.now, h.user⟩

/-- Every call keeps the invariant, a reset as well. -/
theorem perform (h : fs.Addressed) (call : Call) : (fs.perform call).2.Addressed := by
  cases call with
  | change c => exact h.change c
  | query q => exact h
  | reset => exact h.reset
  | clock now => exact ⟨h.isTree, h.sorted, h.named, h.user⟩

/-- A run of calls keeps the invariant, by induction on the calls. -/
theorem after (h : fs.Addressed) (calls : List Call) : (fs.after calls).Addressed := by
  induction calls generalizing fs with
  | nil => exact h
  | cons call calls ih => exact ih (h.perform call)

end Addressed

/-! ## Opening -/

/-- A file system that is opened has a stored tree or a default one. -/
theorem open_addressed {storage : Storage} {options : TreeOptions}
    (huser : Path.IsName options.user)
    (hstored : ∀ text root, storage.text? treeKey = some text → Node.decode? text = some root →
      root.Named) (now : Millis) : (FileSystem.open storage now options).Addressed := by
  refine ⟨open_isTree storage now options, open_bookmarks_sorted storage now options, ?_,
    (options_open storage now options).symm ▸ huser⟩
  cases htree : treeOfAnswer? (treeAnswer storage) with
  | none =>
    rw [open_of_no_tree htree]
    exact defaultTree_named huser now
  | some root =>
    obtain ⟨text, htext, hread⟩ := exists_text_of_treeOfAnswer? htree
    rw [open_of_tree htree]
    exact hstored text root htext hread

/-! ## Every use -/

/-- A file system is opened on any storage in which every name of a tree can be a segment, by a user
whose name can be one, and then called in any way. The root is a directory. Wherever a node occurs
in the tree, the names on the way to it are neither empty nor do they have slashes in them, and the
path written from them leads to this node. Where the paths are the same, so are the ways. -/
theorem nodes_found_by_paths {storage : Storage} {options : TreeOptions}
    (huser : Path.IsName options.user)
    (hstored : ∀ text root, storage.text? treeKey = some text → Node.decode? text = some root →
      root.Named) (now : Millis) (calls : List Call) :
    let fs := (FileSystem.open storage now options).after calls
    fs.root.isDir = true ∧
      (∀ places names n, Node.Occurs fs.root places names n →
        (∀ name ∈ names, name ≠ "" ∧ '/' ∉ name.toList) ∧
          fs.node? (Path.ofSegments names) = some n) ∧
      ∀ places others names names' n n', Node.Occurs fs.root places names n →
        Node.Occurs fs.root others names' n' →
        Path.ofSegments names = Path.ofSegments names' → places = others := by
  intro fs
  have hfs : fs.Addressed := (open_addressed huser hstored now).after calls
  have hsegments {places : List Nat} {names : List String} {n : Node}
      (h : Node.Occurs fs.root places names n) :
      Path.segments (Path.ofSegments names) = names :=
    Path.segments_ofSegments (hfs.named places names n h)
  refine ⟨hfs.isTree.isDir, fun places names n hoccurs => ⟨fun name hname => ?_, ?_⟩, ?_⟩
  · have hisName := hfs.named places names n hoccurs name hname
    exact ⟨fun hempty => hisName.ne_nil (hempty ▸ rfl), hisName.no_slash⟩
  · rw [node?, hsegments hoccurs]
    exact hoccurs.find? hfs.isTree.ordered
  · intro places others names names' n n' hoccurs hoccurs' hpaths
    obtain rfl : names = names' := by rw [← hsegments hoccurs, hpaths, hsegments hoccurs']
    exact hoccurs.places_unique hoccurs' hfs.isTree.ordered

/-- A tree with a file in a directory. -/
def shelved : Node :=
  .dir [("a", .dir [("b", Node.newFile 5 "text")] (Node.stampedAt 5))] (Node.stampedAt 5)

/-- A storage with that tree in it. -/
def shelving : Storage :=
  { texts := [(treeKey, shelved.encode)] }

theorem shelved_named : shelved.Named := by
  have ha : Path.IsName "a" := ⟨by decide, by decide⟩
  have hb : Path.IsName "b" := ⟨by decide, by decide⟩
  have hdir : (Node.dir [("b", Node.newFile 5 "text")] (Node.stampedAt 5)).Named :=
    Node.named_dir_iff.2 (List.forall_mem_singleton.2 ⟨hb, Node.named_file _ _⟩)
  exact Node.named_dir_iff.2 (List.forall_mem_singleton.2 ⟨ha, hdir⟩)

/-- The stored tree of the example is read back as it was. -/
theorem decode?_shelved : Node.decode? shelved.encode = some shelved := by
  have hdir : Node.IsTable [("b", Node.newFile 5 "text")] :=
    Node.isTable_nil.insert (Node.newFile_ordered 5 "text") "b"
  have hroot : shelved.Ordered :=
    ((Node.isTable_nil.insert (hdir.dir (Node.stampedAt 5)).ordered "a").dir _).ordered
  rw [Node.decode?_encode hroot, if_pos (by decide)]

/-- A directory is copied and another one made in the copy, which has two dots for a name: no path
but its own leads there, and that path does. -/
theorem nodes_found_by_paths_dots :
    let fs := (FileSystem.open shelving 9 {}).after
      [.change (.copy "a//" "//c"), .change (.makeDir "/c/.."), .change (.move "/a/b" "c/./")]
    Node.Occurs fs.root [1, 1] ["c", ".."] (Node.newDir 9) ∧
      fs.node? "/c/.." = some (Node.newDir 9) ∧
      ∀ places names n, Node.Occurs fs.root places names n → Path.ofSegments names = "/c/.." →
        places = [1, 1] := by
  intro fs
  have hstored : ∀ text root, shelving.text? treeKey = some text →
      Node.decode? text = some root → root.Named := by
    intro text root htext hread
    obtain rfl : shelved.encode = text := Option.some.inj htext
    obtain rfl : shelved = root := Option.some.inj (decode?_shelved.symm.trans hread)
    exact shelved_named
  have huser : Path.IsName (TreeOptions.user {}) := ⟨by decide, by decide⟩
  obtain ⟨-, hfound, hunique⟩ := nodes_found_by_paths huser hstored 9
    [.change (.copy "a//" "//c"), .change (.makeDir "/c/.."), .change (.move "/a/b" "c/./")]
  have htree : treeOfAnswer? (treeAnswer shelving) = some shelved := by
    have hanswer : treeAnswer shelving = .ok (some shelved.encode) := rfl
    rw [hanswer, treeOfAnswer?, decode?_shelved]
    rfl
  have hroot : fs.root = .dir
      [("a", .dir [] (Node.stampedAt 5)),
        ("c", .dir [(".", Node.newFile 9 "text"), ("..", Node.newDir 9),
          ("b", Node.newFile 9 "text")] (Node.stampedAt 9))] (Node.stampedAt 5) := by
    show (FileSystem.after _ _).root = _
    rw [open_of_tree htree]
    rfl
  have hoccurs : Node.Occurs fs.root [1, 1] ["c", ".."] (Node.newDir 9) := by
    rw [hroot]
    exact .entry rfl (.entry rfl (.here _))
  exact ⟨hoccurs, (hfound _ _ _ hoccurs).2, fun places names n h hpath =>
    hunique _ _ _ _ _ _ h hoccurs hpath⟩

end FileSystem

end SimTerm

import SimTerm.Proofs.Node.Preorder
import SimTerm.FileSystem

/-!
# The walks of a file system

From a directory the four walks pass over one list, that of all nodes below it: searching for a name
or a text keeps some of them, the indented list has a line for each of them, and the sizes of the
files among them are added up. The list holds each node once, in the order of the names, and the path
that a search writes for a node leads to it. From a file a walk sees the file alone, and where there
is nothing it sees nothing: `walks_agree`. A start can be spelled in any way that has its segments.
-/

namespace SimTerm

namespace Node

/-- The nodes strictly below a node of an ordered tree are found by one name or more. -/
theorem mem_descendants_iff {n m : Node} {names : List String} (h : n.Ordered) :
    (names, m) ∈ n.descendants ↔ names ≠ [] ∧ n.find? names = some m := by
  rw [← mem_preorder_iff h, preorder_eq, List.mem_cons]
  constructor
  · intro hbelow
    exact ⟨ne_nil_of_mem_descendants hbelow, Or.inr hbelow⟩
  · rintro ⟨hne, hself | hbelow⟩
    · exact absurd (congrArg Prod.fst hself) hne
    · exact hbelow

/-- The nodes below a node of an ordered tree ascend. -/
theorem descendants_ascending {n : Node} (h : n.Ordered) : n.descendants.Pairwise Ascending :=
  (List.pairwise_cons.1 (preorder_eq n ▸ preorder_ascending n h)).2

/-- Names that ascend are not the same. -/
theorem Ascending.names_ne {f g : Found} (h : Ascending f g) : f.1 ≠ g.1 := by
  intro heq
  rw [Ascending, heq] at h
  exact List.lt_irrefl _ h

end Node

namespace FileSystem

open Node (Found Ascending EndsIn Holds pathFrom listLine)

/-- How the walks from a directory read off the list of the nodes below it. -/
structure WalksBelow (fs : FileSystem) (path : String) (below : List Found) : Prop where
  /-- The list has what is found by one more name or several. -/
  mem_iff : ∀ names n, (names, n) ∈ below ↔
    names ≠ [] ∧ fs.root.find? (Path.segments path ++ names) = some n
  /-- A directory comes before its entries, and these ascend by the bytes of their names. -/
  ascending : below.Pairwise Ascending
  /-- The path that is written for a node leads to this node. -/
  resolved : ∀ f ∈ below, fs.node? (pathFrom (Path.segments path) f) = some f.2
  find_eq : ∀ name,
    fs.find name path = (below.filter (EndsIn name)).map (pathFrom (Path.segments path))
  find_nodup : ∀ name, (fs.find name path).Nodup
  seek_eq : ∀ text,
    fs.seek text path = (below.filter (Holds text)).map (pathFrom (Path.segments path))
  seek_nodup : ∀ text, (fs.seek text path).Nodup
  outline_eq : fs.outline? path = some (below.map listLine)
  totalSize_eq : fs.totalSize path = ((below.filterMap (·.2.content?)).map Text.unitCount).sum

/-- What the walks say from a file: it is the only node they see, under its canonical path. Its name
is the last segment of the path; a file that is the whole tree has the empty name. -/
structure WalksFile (fs : FileSystem) (path content : String) : Prop where
  resolved : fs.node? (canonical path) = fs.node? path
  find_eq : ∀ name, fs.find name path =
    if (Path.segments path).getLast?.getD "" = name then [canonical path] else []
  seek_eq : ∀ text,
    fs.seek text path = if text.toList <:+: content.toList then [canonical path] else []
  outline_eq : fs.outline? path = some [(Path.segments path).getLast?.getD ""]
  totalSize_eq : fs.totalSize path = Text.unitCount content

/-- What the walks say where nothing is. -/
structure WalksNothing (fs : FileSystem) (path : String) : Prop where
  find_eq : ∀ name, fs.find name path = []
  seek_eq : ∀ text, fs.seek text path = []
  outline_eq : fs.outline? path = none
  totalSize_eq : fs.totalSize path = 0

variable {fs : FileSystem} {path : String} {n : Node}

/-- A path and its canonical form lead to the same node. -/
theorem segments_canonical (path : String) : Path.segments (canonical path) = Path.segments path :=
  Path.segments_ofSegments fun _ => Path.isName_of_mem_segmentsOf

/-- The path that is written for a node below a directory leads to this node. -/
theorem node?_pathFrom (hordered : fs.root.Ordered) (hnamed : fs.root.Named)
    (hn : fs.node? path = some n) {f : Found} (hf : f ∈ n.descendants) :
    Path.segments (pathFrom (Path.segments path) f) = Path.segments path ++ f.1 ∧
      fs.node? (pathFrom (Path.segments path) f) = some f.2 := by
  have hfound : fs.root.find? (Path.segments path ++ f.1) = some f.2 := by
    rw [Node.find?_append, show fs.root.find? (Path.segments path) = some n from hn,
      Option.bind_some]
    exact ((Node.mem_descendants_iff (Node.ordered_of_find? hordered hn)).1 hf).2
  have hsegments : Path.segments (pathFrom (Path.segments path) f) = Path.segments path ++ f.1 :=
    Path.segments_ofSegments (hnamed.isName_of_find? hfound)
  exact ⟨hsegments, by rw [node?, hsegments, hfound]⟩

/-- The nodes below a directory have a path each. -/
theorem nodup_pathFrom (hordered : fs.root.Ordered) (hnamed : fs.root.Named)
    (hn : fs.node? path = some n) :
    (n.descendants.map (pathFrom (Path.segments path))).Nodup := by
  refine List.pairwise_map.2 ((Node.descendants_ascending
    (Node.ordered_of_find? hordered hn)).imp_of_mem fun {f g} hf hg hfg hpaths => ?_)
  -- a path gives back the names that led to the node, and these differ from node to node
  have hsegments : Path.segments path ++ f.1 = Path.segments path ++ g.1 := by
    rw [← (node?_pathFrom hordered hnamed hn hf).1, hpaths,
      (node?_pathFrom hordered hnamed hn hg).1]
  exact hfg.names_ne (List.append_cancel_left hsegments)

/-- From a directory all four walks are read off the list of the nodes below it. -/
theorem walksBelow_of_dir {es : Entries Node} {s : Stamps} (hordered : fs.root.Ordered)
    (hnamed : fs.root.Named) (hdir : fs.node? path = some (.dir es s)) :
    WalksBelow fs path (Node.dir es s).descendants := by
  have hpath : ∀ name ∈ Path.segments path, Path.IsName name :=
    fun _ => Path.isName_of_mem_segmentsOf
  have hdirNamed : (Node.dir es s).Named := hnamed.of_find? hdir
  have hfind (name : String) : fs.find name path =
      ((Node.dir es s).descendants.filter (EndsIn name)).map (pathFrom (Path.segments path)) := by
    rw [find, hdir]
    exact Node.namedBelow_eq name hpath _ hdirNamed
  have hseek (text : String) : fs.seek text path =
      ((Node.dir es s).descendants.filter (Holds text)).map (pathFrom (Path.segments path)) := by
    rw [seek, hdir]
    exact Node.holdingAmong_eq text hpath es (Node.named_dir_iff.1 hdirNamed)
  have hnodup := nodup_pathFrom hordered hnamed hdir
  exact
    { mem_iff := fun names m => by
        rw [Node.mem_descendants_iff (Node.ordered_of_find? hordered hdir), Node.find?_append,
          show fs.root.find? (Path.segments path) = some _ from hdir, Option.bind_some]
      ascending := Node.descendants_ascending (Node.ordered_of_find? hordered hdir)
      resolved := fun f hf => (node?_pathFrom hordered hnamed hdir hf).2
      find_eq := hfind
      find_nodup := fun name => by
        rw [hfind]
        exact hnodup.sublist (List.filter_sublist.map _)
      seek_eq := hseek
      seek_nodup := fun text => by
        rw [hseek]
        exact hnodup.sublist (List.filter_sublist.map _)
      outline_eq := by
        have hlines := Node.outlineBelow_eq "" (.dir es s)
        simp only [String.empty_append] at hlines
        rw [outline?, hdir, Option.map_some, Node.outline, hlines]
      totalSize_eq := by
        rw [totalSize, hdir]
        exact Node.totalSizeAmong_eq es }

/-- From a file all four walks see the file alone. -/
theorem walksFile_of_file {content : String} {s : Stamps}
    (hfile : fs.node? path = some (.file content s)) : WalksFile fs path content where
  resolved := by rw [node?, node?, segments_canonical]
  find_eq name := by
    -- the code asks for the last segment of the path as written anew, which has the same segments
    have hleaf : Path.leaf (canonical path) = (Path.segments path).getLast?.getD "" := by
      rw [Path.leaf, segments_canonical]
    rw [find, hfile, Option.map_some, Option.getD_some, Node.named, hleaf]
  seek_eq text := by
    rw [seek, hfile, Option.map_some, Option.getD_some, Node.holding]
    exact if_congr Text.contains_iff rfl rfl
  outline_eq := by
    rw [outline?, hfile, Option.map_some, Node.outline, Path.leaf]
  totalSize_eq := by
    rw [totalSize, hfile, Option.map_some, Option.getD_some, Node.totalSize]

theorem walksNothing_of_none (h : fs.node? path = none) : WalksNothing fs path where
  find_eq name := by
    rw [find, h]
    rfl
  seek_eq text := by
    rw [seek, h]
    rfl
  outline_eq := by
    rw [outline?, h]
    rfl
  totalSize_eq := by
    rw [totalSize, h]
    rfl

/-- In an ordered tree whose names can be segments, the walks from a directory agree with the list of
the nodes below it, those from a file see that file, and there are no others. -/
theorem walks_agree (hordered : fs.root.Ordered) (hnamed : fs.root.Named) (path : String) :
    match fs.node? path with
    | some (.dir es s) => WalksBelow fs path (Node.dir es s).descendants
    | some (.file content _) => WalksFile fs path content
    | none => WalksNothing fs path := by
  split
  · exact walksBelow_of_dir hordered hnamed ‹_›
  · exact walksFile_of_file ‹_›
  · exact walksNothing_of_none ‹_›

/-- A tree whose directory `a` has in it a directory with a file `a`, and a file beside that. -/
def nestedTree : Node :=
  .dir
    [("a", .dir [("a.b", Node.newFile 5 "x"),
      ("b", .dir [("a", Node.newFile 5 "y𝄞x")] (Node.stampedAt 5))] (Node.stampedAt 5)),
      ("b", Node.newFile 5 "x")]
    (Node.stampedAt 5)

theorem nestedTree_ordered : nestedTree.Ordered := by
  simp only [nestedTree, Node.newFile, Node.Ordered, Node.EntriesOrdered, Entries.Sorted]
  decide

theorem nestedTree_named : nestedTree.Named := by
  have isName {name : String} (hne : name.toList ≠ []) (hslash : '/' ∉ name.toList) :
      Path.IsName name := ⟨hne, hslash⟩
  simp only [nestedTree, Node.newFile, Node.named_dir_iff, List.forall_mem_cons, Node.named_file]
  simp [isName]

/-- The walks of that tree from a directory and from a file, whose paths have more slashes than they
need. -/
theorem walks_agree_nested :
    let fs : FileSystem :=
      { root := nestedTree, bookmarks := [], storage := {}, now := 9, options := {} }
    nestedTree.Ordered ∧ nestedTree.Named ∧
      fs.find "a" "//a/" = ["/a/b/a"] ∧ fs.seek "x" "//a/" = ["/a/a.b", "/a/b/a"] ∧
      fs.outline? "//a/" = some ["a.b", "b/", "  a"] ∧ fs.totalSize "//a/" = 5 ∧
      fs.find "a" "a//b/a/" = ["/a/b/a"] ∧ fs.find "b" "a//b/a/" = [] ∧
      fs.find "" "a//b/a/" = [] ∧ fs.seek "𝄞" "a//b/a/" = ["/a/b/a"] ∧
      fs.outline? "a//b/a/" = some ["a"] ∧ fs.totalSize "a//b/a/" = 4 := by
  intro fs
  have hdir : WalksBelow fs "//a/" _ := @walks_agree fs nestedTree_ordered nestedTree_named "//a/"
  have hfile : WalksFile fs "a//b/a/" "y𝄞x" :=
    @walks_agree fs nestedTree_ordered nestedTree_named "a//b/a/"
  refine ⟨nestedTree_ordered, nestedTree_named, ?_, ?_, ?_, ?_, ?_, ?_, ?_, ?_, ?_, ?_⟩
  · rw [hdir.find_eq]
    decide
  · rw [hdir.seek_eq]
    decide
  · rw [hdir.outline_eq]
    decide
  · rw [hdir.totalSize_eq]
    decide
  · rw [hfile.find_eq]
    decide
  · rw [hfile.find_eq]
    decide
  · rw [hfile.find_eq]
    decide
  · rw [hfile.seek_eq]
    decide
  · rw [hfile.outline_eq]
    decide
  · rw [hfile.totalSize_eq]
    decide

end FileSystem

end SimTerm

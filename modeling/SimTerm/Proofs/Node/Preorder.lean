import Mathlib.Algebra.GroupWithZero.Nat
import Mathlib.Data.List.Infix
import SimTerm.Node.Walk
import SimTerm.Proofs.Node.Occurs
import SimTerm.Proofs.Text.Bytes

/-!
# All nodes of a tree in one list

`preorder` lists the nodes of a tree with the names that lead to them, a directory before its
entries. In an ordered tree these are the nodes that can be found, and the names that lead to them
ascend. The four walks are read off this list: each passes over it once, keeps some of the nodes, and
writes down a path, a line or a size for each of them.
-/

namespace SimTerm

namespace Text

/-- The search for a text finds it exactly if it stands somewhere without gaps. -/
theorem occursIn_iff {needle text : List Char} : occursIn needle text = true ↔ needle <:+: text := by
  induction text with
  | nil => simp [occursIn]
  | cons c cs ih =>
    rw [occursIn, Bool.or_eq_true, List.isPrefixOf_iff_prefix, ih, List.infix_cons_iff]

/-- A text contains another if the other's characters stand somewhere in it in a row. -/
theorem contains_iff {text needle : String} :
    contains text needle = true ↔ needle.toList <:+: text.toList :=
  occursIn_iff

end Text

namespace Node

/-! ## The list -/

/-- A node and the names that lead to it. -/
abbrev Found := List String × Node

/-- What is found from an entry is found from its directory by one more name. -/
def under (name : String) (e : Found) : Found :=
  (name :: e.1, e.2)

mutual
/-- All nodes at or below a node; a directory comes before its entries. -/
def preorder : Node → List Found
  | .file content s => [([], .file content s)]
  | .dir entries s => ([], .dir entries s) :: preorderAmong entries

/-- All entries in order, each before what is below it. -/
def preorderAmong : List (String × Node) → List Found
  | [] => []
  | (name, n) :: es => (preorder n).map (under name) ++ preorderAmong es
end

/-- All nodes strictly below a node. -/
def descendants (n : Node) : List Found :=
  n.preorder.tail

/-- A node comes before all that is below it. -/
theorem preorder_eq (n : Node) : n.preorder = ([], n) :: n.descendants := by
  cases n <;> rfl

theorem descendants_dir (es : List (String × Node)) (s : Stamps) :
    (dir es s).descendants = preorderAmong es :=
  rfl

/-- What is below an entry comes right behind it, and then the other entries. -/
theorem preorderAmong_cons (name : String) (n : Node) (es : List (String × Node)) :
    preorderAmong ((name, n) :: es) =
      ([name], n) :: (n.descendants.map (under name) ++ preorderAmong es) := by
  rw [preorderAmong, preorder_eq, List.map_cons, List.cons_append]
  rfl

/-- What is found among entries is found from one of them, under its name. -/
theorem mem_preorderAmong_iff {es : List (String × Node)} {f : Found} :
    f ∈ preorderAmong es ↔ ∃ e ∈ es, ∃ g ∈ e.2.preorder, under e.1 g = f := by
  induction es with
  | nil => simp [preorderAmong]
  | cons e es ih =>
    obtain ⟨name, n⟩ := e
    rw [preorderAmong, List.mem_append, ih, List.mem_map]
    simp

/-- Names lead to every node below. -/
theorem ne_nil_of_mem_descendants {n : Node} {f : Found} (h : f ∈ n.descendants) : f.1 ≠ [] := by
  cases n with
  | file content s => cases h
  | dir es s =>
    obtain ⟨e, -, g, -, rfl⟩ := mem_preorderAmong_iff.1 h
    exact List.cons_ne_nil _ _

/-- In an ordered tree the nodes of the list are those that are found. -/
theorem mem_preorder_iff {n m : Node} {names : List String} (h : n.Ordered) :
    (names, m) ∈ n.preorder ↔ n.find? names = some m := by
  induction names generalizing n with
  | nil =>
    rw [preorder_eq, List.mem_cons, find?_nil, Option.some.injEq]
    refine ⟨fun hmem => ?_, fun heq => Or.inl (heq ▸ rfl)⟩
    rcases hmem with hself | hbelow
    · exact (congrArg Prod.snd hself).symm
    · exact absurd rfl (ne_nil_of_mem_descendants hbelow)
  | cons name names ih =>
    cases n with
    | file content s => simp [preorder, find?]
    | dir es s =>
      have htable : IsTable es := ordered_dir_iff.1 h
      rw [preorder_eq, List.mem_cons, descendants_dir, mem_preorderAmong_iff]
      -- names lead into one entry of a table, so the entry that is found from is the one looked up
      constructor
      · rintro (hself | ⟨⟨k, n⟩, he, ⟨rest, m'⟩, hg, hunder⟩)
        · cases hself
        · cases hunder
          have hget : Entries.get? k es = some n := Entries.get?_of_mem htable.sorted he
          rw [find?, hget]
          exact (ih (htable.ordered_of_get? hget)).1 hg
      · intro hfound
        rw [find?] at hfound
        cases hget : Entries.get? name es with
        | none => simp [hget] at hfound
        | some n =>
          rw [hget] at hfound
          exact Or.inr ⟨(name, n), Entries.mem_of_get? hget, (names, m),
            (ih (htable.ordered_of_get? hget)).2 hfound, rfl⟩

/-- The names ascend: a directory comes before what is below it, and of two entries of one directory
the one whose name has the smaller bytes comes before the other, each with all that is below it. -/
def Ascending (f g : Found) : Prop :=
  f.1.map Text.bytes < g.1.map Text.bytes

mutual
/-- From an ordered node all that is found ascends, by induction together with its entries. -/
theorem preorder_ascending : ∀ n : Node, n.Ordered → n.preorder.Pairwise Ascending
  | .file content s, _ => List.pairwise_singleton _ _
  | .dir es s, h => by
    have htable : IsTable es := ordered_dir_iff.1 h
    rw [preorder_eq, descendants_dir]
    refine List.pairwise_cons.2
      ⟨fun f hf => ?_, preorderAmong_ascending es htable.sorted htable.ordered⟩
    obtain ⟨e, -, g, -, rfl⟩ := mem_preorderAmong_iff.1 hf
    exact List.nil_lt_cons _ _

/-- Among ordered entries in order all that is found ascends. -/
theorem preorderAmong_ascending : ∀ es : List (String × Node), Entries.Sorted es →
    EntriesOrdered es → (preorderAmong es).Pairwise Ascending
  | [], _, _ => List.Pairwise.nil
  | (name, n) :: es, hsorted, hordered => by
    obtain ⟨hfirst, hrest⟩ := List.pairwise_cons.1 hsorted
    rw [EntriesOrdered] at hordered
    rw [preorderAmong]
    refine List.pairwise_append.2 ⟨?_, preorderAmong_ascending es hrest hordered.2, ?_⟩
    · refine List.pairwise_map.2 ((preorder_ascending n hordered.1).imp fun hfg => ?_)
      exact List.cons_lt_cons_iff.2 (Or.inr ⟨rfl, hfg⟩)
    · intro f hf g hg
      obtain ⟨f, -, rfl⟩ := List.mem_map.1 hf
      obtain ⟨e, he, g, -, rfl⟩ := mem_preorderAmong_iff.1 hg
      exact List.cons_lt_cons_iff.2 (Or.inl (Text.bytes_lt_of_lt (hfirst e he)))
end

/-! ## The walks -/

/-- The path of a node that is found from the directory with these segments. -/
def pathFrom (here : List String) (f : Found) : String :=
  Path.ofSegments (here ++ f.1)

/-- The names that lead to the node end with this one. -/
def EndsIn (name : String) (f : Found) : Prop :=
  f.1.getLast? = some name

instance (name : String) (f : Found) : Decidable (EndsIn name f) :=
  inferInstanceAs (Decidable (f.1.getLast? = some name))

/-- The node is a file and has the text somewhere in its content. -/
def Holds (text : String) (f : Found) : Prop :=
  ∃ content, f.2.content? = some content ∧ text.toList <:+: content.toList

instance (text : String) (f : Found) : Decidable (Holds text f) :=
  match h : f.2.content? with
  | none => isFalse fun ⟨_, hcontent, _⟩ => by simp [h] at hcontent
  | some content => decidable_of_iff (text.toList <:+: content.toList)
      ⟨fun hin => ⟨content, h, hin⟩, fun ⟨_, hcontent, hin⟩ => by
        obtain rfl : content = _ := Option.some.inj (h.symm.trans hcontent)
        exact hin⟩

/-- The line of a node in a list that starts below a directory: two spaces for each directory in
between, its name, and a slash behind that of a directory. -/
def listLine (f : Found) : String :=
  String.ofList (List.replicate (2 * (f.1.length - 1)) ' ') ++ f.1.getLast?.getD "" ++
    if f.2.isDir then "/" else ""

theorem isName_concat {here : List String} (hhere : ∀ s ∈ here, Path.IsName s) {name : String}
    (hname : Path.IsName name) : ∀ s ∈ here ++ [name], Path.IsName s :=
  List.forall_mem_append.2 ⟨hhere, List.forall_mem_singleton.2 hname⟩

/-- The paths below an entry are written from the path of the entry. -/
theorem map_pathFrom_under (here : List String) (name : String) (l : List Found) :
    (l.map (under name)).map (pathFrom here) = l.map (pathFrom (here ++ [name])) := by
  rw [List.map_map]
  refine List.map_congr_left fun f _ => ?_
  rw [Function.comp_apply, pathFrom, pathFrom, under, List.append_assoc, List.singleton_append]

/-- A name in front makes no difference to the last name, if there is one. -/
theorem endsIn_under {name k : String} {f : Found} (h : f.1 ≠ []) :
    EndsIn name (under k f) ↔ EndsIn name f := by
  rw [EndsIn, under, List.getLast?_cons_of_ne_nil h, EndsIn]

/-- So it makes no difference to a search for a last name whether it is made above or below an
entry. -/
theorem filter_endsIn_under (name k : String) (n : Node) :
    (n.descendants.map (under k)).filter (EndsIn name) =
      (n.descendants.filter (EndsIn name)).map (under k) := by
  rw [List.filter_map]
  congr 1
  exact List.filter_congr fun f hf =>
    decide_eq_decide.2 (endsIn_under (ne_nil_of_mem_descendants hf))

/-- A name in front indents the line of a node by one step. -/
theorem listLine_under {name : String} {f : Found} (h : f.1 ≠ []) :
    listLine (under name f) = "  " ++ listLine f := by
  have hlength : 2 * ((name :: f.1).length - 1) = 2 + 2 * (f.1.length - 1) := by
    have hpos := List.length_pos_iff.2 h
    rw [List.length_cons]
    omega
  have hspaces : String.ofList (List.replicate (2 + 2 * (f.1.length - 1)) ' ') =
      "  " ++ String.ofList (List.replicate (2 * (f.1.length - 1)) ' ') := by
    rw [← List.replicate_append_replicate, String.ofList_append]
    rfl
  rw [listLine, under, hlength, hspaces, List.getLast?_cons_of_ne_nil h, listLine,
    String.append_assoc, String.append_assoc, String.append_assoc]

mutual
/-- Searching for a name keeps the nodes whose names end in it. -/
theorem namedBelow_eq (name : String) {here : List String} (hhere : ∀ s ∈ here, Path.IsName s) :
    ∀ n : Node, n.Named → namedBelow name (Path.ofSegments here) n =
      (n.descendants.filter (EndsIn name)).map (pathFrom here)
  | .file .., _ => rfl
  | .dir es _, h => namedAmong_eq name hhere es (named_dir_iff.1 h)

/-- The search for a name among entries keeps what has that last name, in order. -/
theorem namedAmong_eq (name : String) {here : List String} (hhere : ∀ s ∈ here, Path.IsName s) :
    ∀ es : List (String × Node), (∀ e ∈ es, Path.IsName e.1 ∧ e.2.Named) →
      namedAmong name (Path.ofSegments here) es =
        ((preorderAmong es).filter (EndsIn name)).map (pathFrom here)
  | [], _ => rfl
  | (k, n) :: es, h => by
    obtain ⟨⟨hk, hn⟩, hes⟩ := List.forall_mem_cons.1 h
    have hentry := isName_concat hhere hk
    have hself : EndsIn name ([k], n) ↔ k = name := by simp [EndsIn]
    rw [namedAmong, Path.child_ofSegments hhere, namedBelow_eq name hentry n hn,
      namedAmong_eq name hhere es hes, preorderAmong_cons, ← map_pathFrom_under,
      ← filter_endsIn_under, List.append_assoc, ← List.map_append, ← List.filter_append]
    by_cases hname : k = name
    · rw [if_pos hname, List.filter_cons_of_pos (by simpa using hself.2 hname)]
      rfl
    · rw [if_neg hname, List.filter_cons_of_neg (by simpa using mt hself.1 hname)]
      rfl
end

mutual
/-- Searching for a text keeps the files that have it in their content. -/
theorem holding_eq (text : String) {here : List String} (hhere : ∀ s ∈ here, Path.IsName s) :
    ∀ n : Node, n.Named → holding text (Path.ofSegments here) n =
      (n.preorder.filter (Holds text)).map (pathFrom here)
  | .file content s, _ => by
    have hself : Holds text ([], .file content s) ↔ Text.contains content text = true := by
      simp [Holds, content?, Text.contains_iff]
    rw [holding, preorder, List.filter_cons, decide_eq_decide.2 hself, List.filter_nil]
    by_cases hin : Text.contains content text = true
    · rw [if_pos hin, if_pos (decide_eq_true hin)]
      simp [pathFrom]
    · rw [if_neg hin, if_neg (by simpa using hin)]
      rfl
  | .dir es s, h => by
    have hself : ¬ Holds text ([], .dir es s) := by simp [Holds, content?]
    rw [holding, preorder, List.filter_cons_of_neg (by simpa using hself)]
    exact holdingAmong_eq text hhere es (named_dir_iff.1 h)

theorem holdingAmong_eq (text : String) {here : List String} (hhere : ∀ s ∈ here, Path.IsName s) :
    ∀ es : List (String × Node), (∀ e ∈ es, Path.IsName e.1 ∧ e.2.Named) →
      holdingAmong text (Path.ofSegments here) es =
        ((preorderAmong es).filter (Holds text)).map (pathFrom here)
  | [], _ => rfl
  | (k, n) :: es, h => by
    obtain ⟨⟨hk, hn⟩, hes⟩ := List.forall_mem_cons.1 h
    have hentry := isName_concat hhere hk
    rw [holdingAmong, Path.child_ofSegments hhere, holding_eq text hentry n hn,
      holdingAmong_eq text hhere es hes, preorderAmong, List.filter_append, List.map_append,
      List.filter_map, map_pathFrom_under]
    rfl
end

mutual
/-- The indented list has a line for each node. -/
theorem outlineBelow_eq (indent : String) :
    ∀ n : Node, outlineBelow indent n = n.descendants.map fun f => indent ++ listLine f
  | .file .. => rfl
  | .dir es _ => outlineAmong_eq indent es

/-- The outline of entries has a line for each node, in order. -/
theorem outlineAmong_eq (indent : String) : ∀ es : List (String × Node),
    outlineAmong indent es = (preorderAmong es).map fun f => indent ++ listLine f
  | [] => rfl
  | (k, n) :: es => by
    have hbelow : (n.descendants.map (under k)).map (fun f => indent ++ listLine f) =
        outlineBelow (indent ++ "  ") n := by
      rw [outlineBelow_eq (indent ++ "  ") n, List.map_map]
      refine List.map_congr_left fun f hf => ?_
      rw [Function.comp_apply, listLine_under (ne_nil_of_mem_descendants hf), String.append_assoc]
    have hself : listLine ([k], n) = k ++ if n.isDir then "/" else "" := by simp [listLine]
    rw [outlineAmong, outlineAmong_eq indent es, preorderAmong_cons, List.map_cons, List.map_append,
      hbelow, hself]
    cases n with
    | file content s => simp [isDir, kind, outlineBelow]
    | dir entries s => simp [isDir, kind, String.append_assoc]
end

mutual
/-- The sum of the sizes is that of the files. -/
theorem totalSize_eq : ∀ n : Node,
    n.totalSize = ((n.preorder.filterMap (·.2.content?)).map Text.unitCount).sum
  | .file content s => by simp [totalSize, preorder, content?]
  | .dir es s => by
    rw [totalSize, totalSizeAmong_eq es]
    rfl

/-- The size of entries is that of all their files. -/
theorem totalSizeAmong_eq : ∀ es : List (String × Node),
    totalSizeAmong es = (((preorderAmong es).filterMap (·.2.content?)).map Text.unitCount).sum
  | [] => rfl
  | (k, n) :: es => by
    rw [totalSizeAmong, totalSize_eq n, totalSizeAmong_eq es, preorderAmong, List.filterMap_append,
      List.map_append, List.sum_append, List.filterMap_map]
    rfl
end

end Node

end SimTerm

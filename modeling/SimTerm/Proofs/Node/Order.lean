import SimTerm.Node.Layout
import SimTerm.Proofs.Entries.Order
import SimTerm.Proofs.Node.Edit

/-!
# Trees in name order

A tree is *ordered* if the entries of every directory in it are sorted. Every edit keeps a tree
ordered and its root a directory, and what is read from a stored text is ordered.
-/

namespace SimTerm.Node

mutual
/-- The entries of every directory at or below the node are sorted. -/
def Ordered : Node → Prop
  | .file .. => True
  | .dir entries _ => Entries.Sorted entries ∧ EntriesOrdered entries

/-- Every node of the entries is ordered. -/
def EntriesOrdered : List (String × Node) → Prop
  | [] => True
  | (_, n) :: es => n.Ordered ∧ EntriesOrdered es
end

/-- A directory with ordered entries, which is what a root is. -/
structure IsTree (n : Node) : Prop where
  isDir : n.isDir
  ordered : n.Ordered

/-- A table of nodes that a directory may have. -/
structure IsTable (es : Entries Node) : Prop where
  sorted : es.Sorted
  ordered : EntriesOrdered es

/-- Entries are ordered if each of their nodes is. -/
theorem entriesOrdered_iff {es : List (String × Node)} :
    EntriesOrdered es ↔ ∀ e ∈ es, e.2.Ordered := by
  induction es with
  | nil => simp [EntriesOrdered]
  | cons e es ih =>
    obtain ⟨name, n⟩ := e
    simp [EntriesOrdered, ih]

/-- A directory is ordered if its entries are a table of ordered nodes. -/
theorem ordered_dir_iff {es : Entries Node} {s : Stamps} : (dir es s).Ordered ↔ IsTable es := by
  rw [Ordered]
  exact ⟨fun h => ⟨h.1, h.2⟩, fun h => ⟨h.1, h.2⟩⟩

theorem ordered_file (content : String) (s : Stamps) : (file content s).Ordered := by
  simp [Ordered]

theorem isTable_nil : IsTable [] :=
  ⟨Entries.sorted_nil, by simp [EntriesOrdered]⟩

theorem IsTable.dir {es : Entries Node} (h : IsTable es) (s : Stamps) : IsTree (.dir es s) :=
  ⟨rfl, ordered_dir_iff.2 h⟩

/-! ## Tables -/

/-- What is found in a table of ordered nodes is ordered. -/
theorem IsTable.ordered_of_get? {es : Entries Node} (h : IsTable es) {name : String} {n : Node}
    (hn : es.get? name = some n) : n.Ordered :=
  entriesOrdered_iff.1 h.ordered _ (Entries.mem_of_get? hn)

/-- Putting an ordered node into a table of such leaves one. -/
theorem IsTable.insert {es : Entries Node} (h : IsTable es) {n : Node} (hn : n.Ordered)
    (name : String) : IsTable (es.insert name n) := by
  refine ⟨h.sorted.insert name n, entriesOrdered_iff.2 fun e he => ?_⟩
  rcases Entries.mem_insert he with rfl | he
  · exact hn
  · exact entriesOrdered_iff.1 h.ordered e he

/-- Taking a node out of a table of ordered nodes leaves one. -/
theorem IsTable.erase {es : Entries Node} (h : IsTable es) (name : String) :
    IsTable (es.erase name) :=
  ⟨h.sorted.erase name, entriesOrdered_iff.2 fun e he =>
    entriesOrdered_iff.1 h.ordered e (Entries.mem_of_mem_erase he)⟩

/-- Ordered nodes under any names make a table of ordered nodes. -/
theorem IsTable.ofList {pairs : List (String × Node)} (h : EntriesOrdered pairs) :
    IsTable (Entries.ofList pairs) := by
  have step : ∀ es : Entries Node, IsTable es →
      IsTable (pairs.foldl (fun es p => Entries.insert p.1 p.2 es) es) := by
    induction pairs with
    | nil => exact fun es hes => hes
    | cons p ps ih =>
      obtain ⟨hp, hps⟩ : p.2.Ordered ∧ EntriesOrdered ps := h
      exact fun es hes => ih hps _ (hes.insert hp p.1)
  exact step [] isTable_nil

/-! ## Edits -/

theorem newFile_ordered (now : Millis) (content : String) : (newFile now content).Ordered :=
  ordered_file _ _

theorem newDir_isTree (now : Millis) : (newDir now).IsTree :=
  isTable_nil.dir _

theorem touch_ordered {n : Node} (h : n.Ordered) (now : Millis) : (touch now n).Ordered := by
  cases n with
  | file content s => exact ordered_file _ _
  | dir es s => exact ordered_dir_iff.2 (ordered_dir_iff.1 h)

theorem touch_isDir (now : Millis) (n : Node) : (touch now n).isDir = n.isDir := by
  cases n <;> rfl

/-- The copied entries have the same names, in the same order. -/
theorem freshEntries_names (now : Millis) (es : List (String × Node)) :
    (freshEntries now es).map (·.1) = es.map (·.1) := by
  induction es with
  | nil => rfl
  | cons e es ih =>
    obtain ⟨name, n⟩ := e
    simp [freshEntries, ih]

/-- So the copied entries are in order if the others were. -/
theorem freshEntries_sorted {es : Entries Node} (h : es.Sorted) (now : Millis) :
    Entries.Sorted (freshEntries now es) := by
  have hnames : (es.map (·.1)).Pairwise (· < ·) := List.pairwise_map.2 h
  rw [← freshEntries_names now es] at hnames
  exact List.pairwise_map.1 hnames

mutual
/-- A copy of an ordered node is ordered, by induction together with its entries. -/
theorem freshCopy_ordered (now : Millis) : ∀ n : Node, n.Ordered → (n.freshCopy now).Ordered
  | .file content s, _ => ordered_file _ _
  | .dir es s, h => by
    obtain ⟨hsorted, hordered⟩ := ordered_dir_iff.1 h
    exact ordered_dir_iff.2
      ⟨freshEntries_sorted hsorted now, freshEntries_ordered now es hordered⟩

theorem freshEntries_ordered (now : Millis) : ∀ es : List (String × Node),
    EntriesOrdered es → EntriesOrdered (freshEntries now es)
  | [], _ => by simp [freshEntries, EntriesOrdered]
  | (name, n) :: es, h => by
    rw [EntriesOrdered] at h
    rw [freshEntries, EntriesOrdered]
    exact ⟨freshCopy_ordered now n h.1, freshEntries_ordered now es h.2⟩
end

/-- An edit of the entries of one directory that keeps tables keeps trees. -/
theorem editEntries_isTree {root after : Node} {path : List String}
    {edit : Entries Node → Except FileError (Entries Node)} (h : root.Ordered)
    (hedit : ∀ es es', IsTable es → edit es = .ok es' → IsTable es')
    (hafter : root.editEntries path edit = .ok after) : after.IsTree := by
  induction path generalizing root after with
  | nil =>
    obtain ⟨es, s, es', rfl, hes, rfl⟩ := editEntries_nil hafter
    exact (hedit es es' (ordered_dir_iff.1 h) hes).dir s
  | cons name names ih =>
    obtain ⟨es, s, n, m, rfl, hn, hm, rfl⟩ := editEntries_cons hafter
    have htable : IsTable es := ordered_dir_iff.1 h
    have hmtree : m.IsTree := ih (htable.ordered_of_get? hn) hm
    exact (htable.insert hmtree.ordered name).dir s

/-- Changing the node at a path keeps the tree ordered if the change keeps nodes so. -/
theorem modifyAt_ordered {root : Node} {path : List String} {change : Node → Node}
    (h : root.Ordered) (hchange : ∀ n : Node, n.Ordered → (change n).Ordered) :
    (root.modifyAt path change).Ordered := by
  fun_induction modifyAt root path change with
  | case1 root => exact hchange root h
  | case2 => exact ordered_file _ _
  | case3 name names es s n hn ih =>
    have htable : IsTable es := ordered_dir_iff.1 h
    exact ordered_dir_iff.2 (htable.insert (ih (htable.ordered_of_get? hn)) name)
  | case4 => exact h

/-- Changing the node at a path leaves the root a directory if the change leaves directories such.
-/
theorem modifyAt_isDir {root : Node} {path : List String} {change : Node → Node}
    (hchange : ∀ n : Node, (change n).isDir = n.isDir) :
    (root.modifyAt path change).isDir = root.isDir := by
  fun_induction modifyAt root path change with
  | case1 root => exact hchange root
  | case2 => rfl
  | case3 => rfl
  | case4 => rfl

/-- The entry of an existing directory is replaced by an ordered node, or a new one is added. -/
theorem putFile_isTree {now : Millis} {segs : List String} {content : String} {root after : Node}
    (h : root.IsTree) (hafter : root.putFile now segs content = .ok after) : after.IsTree := by
  unfold putFile at hafter
  cases hlast : splitLast? segs with
  | none => simp [hlast] at hafter
  | some last =>
    obtain ⟨parent, name⟩ := last
    simp only [hlast] at hafter
    refine editEntries_isTree h.ordered (fun es es' hes hedit => ?_) hafter
    -- a new entry, a directory in the way, or an old file, which keeps the moment it was made
    cases hn : Entries.get? name es with
    | none =>
      obtain rfl : Entries.insert name (newFile now content) es = es' := by
        simpa [hn] using hedit
      exact hes.insert (newFile_ordered now content) name
    | some n =>
      cases n with
      | dir es₁ s₁ => simp [hn] at hedit
      | file old s₁ =>
        obtain rfl : Entries.insert name (.file content { s₁ with modified := now }) es = es' := by
          simpa [hn] using hedit
        exact hes.insert (ordered_file _ _) name

theorem makeDir_isTree {now : Millis} {segs : List String} {root after : Node}
    (h : root.IsTree) (hafter : root.makeDir now segs = .ok after) : after.IsTree := by
  unfold makeDir at hafter
  cases hlast : splitLast? segs with
  | none => simp [hlast] at hafter
  | some last =>
    obtain ⟨parent, name⟩ := last
    simp only [hlast] at hafter
    refine editEntries_isTree h.ordered (fun es es' hes hedit => ?_) hafter
    cases hn : Entries.get? name es with
    | some n => simp [hn] at hedit
    | none =>
      obtain rfl : Entries.insert name (newDir now) es = es' := by simpa [hn] using hedit
      exact hes.insert (newDir_isTree now).ordered name

theorem unlink_isTree {path : String} {root after : Node} (h : root.IsTree)
    (hafter : root.unlink path = .ok after) : after.IsTree := by
  unfold unlink at hafter
  cases hlast : splitLast? (Path.segments path) with
  | none => simp [hlast] at hafter
  | some last =>
    obtain ⟨parent, name⟩ := last
    simp only [hlast] at hafter
    refine editEntries_isTree h.ordered (fun es es' hes hedit => ?_) hafter
    obtain rfl : Entries.erase name es = es' := by simpa using hedit
    exact hes.erase name

theorem removeDir_isTree {path : String} {root after : Node} (h : root.IsTree)
    (hafter : root.removeDir path = .ok after) : after.IsTree := by
  unfold removeDir at hafter
  split at hafter
  · cases hafter
  · cases hafter
  · cases hafter
  · split at hafter
    · cases hafter
    · exact unlink_isTree h hafter

theorem removeFile_isTree {path : String} {root after : Node} (h : root.IsTree)
    (hafter : root.removeFile path = .ok after) : after.IsTree := by
  unfold removeFile at hafter
  split at hafter
  · cases hafter
  · cases hafter
  · exact unlink_isTree h hafter

theorem touchAt_isTree {now : Millis} {segs : List String} {root after : Node}
    (h : root.IsTree) (hafter : root.touchAt now segs = .ok after) : after.IsTree := by
  unfold touchAt at hafter
  split at hafter
  · obtain rfl : root.modifyAt segs (touch now) = after := by simpa using hafter
    exact ⟨(modifyAt_isDir (touch_isDir now)).trans h.isDir,
      modifyAt_ordered h.ordered fun n hn => touch_ordered hn now⟩
  · exact putFile_isTree h hafter

/-- A node found in an ordered tree is ordered. -/
theorem ordered_of_find? {root n : Node} {path : List String} (h : root.Ordered)
    (hn : root.find? path = some n) : n.Ordered := by
  fun_induction find? root path with
  | case1 root =>
    obtain rfl : root = n := by simpa using hn
    exact h
  | case2 => cases hn
  | case3 es s name names m hm ih =>
    exact ih ((ordered_dir_iff.1 h).ordered_of_get? hm) hn
  | case4 => cases hn

theorem copyTo_isTree {now : Millis} {source : List String} {dest : String} {root after : Node}
    (h : root.IsTree) (hafter : root.copyTo now source dest = .ok after) : after.IsTree := by
  obtain ⟨n, parent, name, hn, -, hedit⟩ := copyTo_eq_ok hafter
  refine editEntries_isTree h.ordered (fun es es' hes hes' => ?_) hedit
  obtain rfl : Entries.insert name (n.freshCopy now) es = es' := by simpa using hes'
  exact hes.insert (freshCopy_ordered now n (ordered_of_find? h.ordered hn)) name

/-! ## Reading -/

mutual
/-- What a value describes is ordered, in whatever order and how often its members come. -/
theorem ofJson?_ordered (numbered : Bool) : ∀ (j : Json) (n : Node),
    ofJson? numbered j = some n → n.Ordered
  | .object members, n, h => by
    rw [ofJson?] at h
    split at h
    · -- the tag decides between a directory and a file
      split at h
      · next es s hes hs =>
        cases h
        exact ordered_dir_iff.2 (childrenOf?_isTable members es hes)
      · cases h
    · split at h
      · cases h
        exact ordered_file _ _
      · cases h
    · cases h
  | .array (tag :: first :: rest), n, h => by
    rw [ofJson?] at h
    split at h
    · split at h
      · next es s hes hs =>
        cases h
        exact ordered_dir_iff.2 (entriesObject?_isTable first es hes)
      · cases h
    · split at h
      · cases h
        exact ordered_file _ _
      · cases h
    · cases h
  | .array [tag], n, h => by
    rw [ofJson?] at h
    split at h
    · cases h
      exact ordered_dir_iff.2 isTable_nil
    · cases h
      exact ordered_file _ _
    · cases h
  | .array [], n, h => by simp [ofJson?] at h
  | .null, n, h => by simp [ofJson?] at h
  | .bool _, n, h => by simp [ofJson?] at h
  | .number _, n, h => by simp [ofJson?] at h
  | .string _, n, h => by simp [ofJson?] at h

/-- The entries that are read from members are a table, by induction together with the nodes. -/
theorem childrenOf?_isTable : ∀ (ms : List (Option String × Json)) (es : Entries Node),
    childrenOf? ms = some es → IsTable es
  | [], es, h => by
    obtain rfl : [] = es := by simpa [childrenOf?] using h
    exact isTable_nil
  | (name, j) :: ms, es, h => by
    rw [childrenOf?] at h
    split at h
    · split at h
      · cases h
      · exact entriesObject?_isTable j es h
    · exact childrenOf?_isTable ms es h

/-- The entries that are read from an object are a table. -/
theorem entriesObject?_isTable : ∀ (j : Json) (es : Entries Node),
    entriesObject? j = some es → IsTable es
  | .object members, es, h => by
    rw [entriesObject?] at h
    obtain ⟨pairs, hpairs, rfl⟩ := Option.map_eq_some_iff.1 h
    exact IsTable.ofList (pairsOf?_ordered members pairs hpairs)
  | .array _, es, h => by simp [entriesObject?] at h
  | .null, es, h => by simp [entriesObject?] at h
  | .bool _, es, h => by simp [entriesObject?] at h
  | .number _, es, h => by simp [entriesObject?] at h
  | .string _, es, h => by simp [entriesObject?] at h

/-- The nodes that are read from members are ordered. -/
theorem pairsOf?_ordered : ∀ (ms : List (Option String × Json)) (pairs : List (String × Node)),
    pairsOf? ms = some pairs → EntriesOrdered pairs
  | [], pairs, h => by
    obtain rfl : [] = pairs := by simpa [pairsOf?] using h
    simp [EntriesOrdered]
  | (name, j) :: ms, pairs, h => by
    unfold pairsOf? at h
    split at h
    · next name n rest hn hrest =>
      obtain rfl : (name, n) :: rest = pairs := by simpa using h
      rw [EntriesOrdered]
      exact ⟨ofJson?_ordered true j n hn, pairsOf?_ordered ms rest hrest⟩
    · cases h
end

/-- A tree that is read from a text is ordered, whatever the order in the text. -/
theorem decode?_ordered {text : String} {n : Node} (h : decode? text = some n) : n.Ordered := by
  obtain ⟨j, -, hj⟩ := Option.bind_eq_some_iff.1 h
  exact ofJson?_ordered false j n hj

end SimTerm.Node

import SimTerm.Proofs.Node.Edit
import SimTerm.Proofs.PathMap

/-!
# A tree as a flat map

`flat` forgets how the nodes of a tree are nested and keeps what stands at each path. Replacing the
node at a path grafts one branch onto the flat map (`flat_modifyAt`), and editing the entries of a
directory is such a replacement or is refused (`editEntries_eq`). From these two, every edit of a
tree is the change of the same name on its flat map, and is refused for the same reason.
-/

namespace SimTerm.Node

/-! ## Reading a tree as a map -/

/-- What stands where the node is. -/
def record : Node → Record
  | .file content s => .file content s
  | .dir _ s => .dir s

/-- What stands at each path from the node downwards. -/
def flat (n : Node) : PathMap := fun path =>
  (n.find? path).map record

/-- The flat map of a node that may be missing. -/
def flat? (n : Option Node) : PathMap := fun path =>
  n.bind fun n => n.flat path

@[simp] theorem flat?_some (n : Node) : flat? (some n) = n.flat :=
  rfl

/-- Where nothing is, nothing is below it. -/
@[simp] theorem flat?_none : flat? none = PathMap.nowhere :=
  rfl

/-- The map of a tree at a longer path is the map of what is found at the first part of it. -/
theorem flat_append (n : Node) (path rest : List String) :
    n.flat (path ++ rest) = flat? (n.find? path) rest := by
  rw [flat, find?_append]
  cases n.find? path <;> rfl

theorem flat_nil (n : Node) : n.flat [] = some n.record := by
  rw [flat, find?_nil, Option.map_some]

/-- The map has what is told of the node that is found at a path. -/
theorem flat_of_find? {root n : Node} {path : List String} (h : root.find? path = some n) :
    root.flat path = some n.record := by
  rw [flat, h, Option.map_some]

/-- The map has nothing at a path exactly if no node is found there. -/
theorem flat_eq_none_iff {n : Node} {path : List String} :
    n.flat path = none ↔ n.find? path = none :=
  Option.map_eq_none_iff

/-- The map of a directory is made of the maps of its entries. -/
@[simp] theorem flat_dir_cons (es : Entries Node) (s : Stamps) (name : String)
    (names : List String) : (dir es s).flat (name :: names) = flat? (es.get? name) names := by
  rw [flat, find?]
  cases es.get? name <;> rfl

/-- The map says of exactly the directories that they are some. -/
theorem isDirAt_flat_iff {n : Node} {path : List String} :
    n.flat.isDirAt path = true ↔ ∃ es s, n.find? path = some (.dir es s) := by
  rw [PathMap.isDirAt, flat]
  constructor
  · intro h
    cases hn : n.find? path with
    | none => simp [hn] at h
    | some m =>
      cases m with
      | file content s => simp [hn, record] at h
      | dir es s => exact ⟨es, s, rfl⟩
  · rintro ⟨es, s, hn⟩
    simp [hn, record]

/-- A directory has a name below it exactly if it has an entry. -/
theorem hasEntry_flat_iff {root : Node} {path : List String} {es : Entries Node} {s : Stamps}
    (h : root.find? path = some (.dir es s)) : root.flat.HasEntry path ↔ es ≠ [] := by
  have hbelow : ∀ name, root.flat (path ++ [name]) = flat? (es.get? name) [] := by
    intro name
    rw [flat_append, h, flat?_some, flat_dir_cons]
  constructor
  · rintro ⟨name, hname⟩ rfl
    exact hname (hbelow name)
  · intro hes
    cases es with
    | nil => exact absurd rfl hes
    | cons e es =>
      refine ⟨e.1, ?_⟩
      rw [hbelow, Entries.get?, if_pos rfl, flat?_some, flat_nil]
      exact Option.some_ne_none _

/-! ## Replacing a node -/

/-- Where a node was changed, the changed node is found, with all that is below it. -/
theorem find?_modifyAt_append {root n : Node} {path : List String} (h : root.find? path = some n)
    (change : Node → Node) (rest : List String) :
    (root.modifyAt path change).find? (path ++ rest) = (change n).find? rest := by
  induction path generalizing root with
  | nil =>
    rw [find?_nil, Option.some.injEq] at h
    rw [modifyAt, h, List.nil_append]
  | cons name names ih =>
    cases root with
    | file content s => cases h
    | dir es s =>
      cases hm : Entries.get? name es with
      | none => simp [find?, hm] at h
      | some m =>
        simp only [find?, hm] at h
        simp only [modifyAt, hm, List.cons_append, find?, Entries.get?_insert_self]
        exact ih h

/-- A path that does not lead through the replaced node leads to the same as before. -/
theorem flat_modifyAt_of_not_prefix {root : Node} {path p : List String} (hp : ¬ path <+: p)
    (change : Node → Node) : (root.modifyAt path change).flat p = root.flat p := by
  -- along `path`; `p` ends on the way, or leaves it for another entry
  induction path generalizing root p with
  | nil => exact absurd List.nil_prefix hp
  | cons name names ih =>
    cases root with
    | file content s => rfl
    | dir es s =>
      cases hm : Entries.get? name es with
      | none => simp only [modifyAt, hm]
      | some m =>
        simp only [modifyAt, hm]
        cases p with
        | nil => rfl
        | cons x p =>
          by_cases hx : x = name
          · subst hx
            have hrest : ¬ names <+: p := fun hpre => hp (List.cons_prefix_cons.2 ⟨rfl, hpre⟩)
            rw [flat_dir_cons, flat_dir_cons, Entries.get?_insert_self, hm]
            exact ih hrest
          · rw [flat_dir_cons, flat_dir_cons, Entries.get?_insert_of_ne hx]

/-- Replacing a node grafts its new branch. -/
theorem flat_modifyAt {root n : Node} {path : List String} (h : root.find? path = some n)
    (change : Node → Node) :
    (root.modifyAt path change).flat = root.flat.graft path (change n).flat := by
  apply PathMap.eq_graft
  · intro rest
    rw [flat, find?_modifyAt_append h, flat]
  · intro p hp
    exact flat_modifyAt_of_not_prefix hp change

/-- Editing the entries of a directory replaces the directory; there must be one. -/
theorem editEntries_eq (root : Node) (path : List String)
    (edit : Entries Node → Except FileError (Entries Node)) :
    root.editEntries path edit =
      match root.find? path with
      | some (.dir es s) => (edit es).map fun es' => root.modifyAt path fun _ => .dir es' s
      | _ => .error .noSuchDirectory := by
  induction path generalizing root with
  | nil => cases root <;> rfl
  | cons name names ih =>
    cases root with
    | file content s => rfl
    | dir es s =>
      simp only [editEntries, find?, modifyAt]
      cases Entries.get? name es with
      | none => rfl
      | some n =>
        dsimp only
        rw [ih n]
        -- what the edit answers is wrapped once more on the way back
        cases n.find? names with
        | none => rfl
        | some m =>
          cases m with
          | file content s' => rfl
          | dir es' s' =>
            dsimp only
            cases edit es' <;> rfl

/-- What was made of a success is made of something. -/
theorem exists_of_map_eq_ok {ε α β : Type} {x : Except ε α} {f : α → β} {b : β}
    (h : x.map f = .ok b) : ∃ a, x = .ok a ∧ f a = b := by
  cases x with
  | error cause => cases h
  | ok a => exact ⟨a, rfl, Except.ok.inj h⟩

/-- The entries of what is no directory cannot be edited. -/
theorem editEntries_of_not_dir {root : Node} {path : List String}
    (h : root.flat.isDirAt path = false) (edit : Entries Node → Except FileError (Entries Node)) :
    root.editEntries path edit = .error .noSuchDirectory := by
  have hnot : ¬ ∃ es s, root.find? path = some (.dir es s) := by
    rw [← isDirAt_flat_iff, h]
    exact Bool.false_ne_true
  rw [editEntries_eq]
  cases hn : root.find? path with
  | none => rfl
  | some n =>
    cases n with
    | file content s => rfl
    | dir es s => exact absurd ⟨es, s, hn⟩ hnot

/-- An edit that is refused in the directory is refused for the tree, with the same reason. -/
theorem editEntries_of_error {root : Node} {path : List String} {es : Entries Node} {s : Stamps}
    {edit : Entries Node → Except FileError (Entries Node)} {cause : FileError}
    (h : root.find? path = some (.dir es s)) (hedit : edit es = .error cause) :
    root.editEntries path edit = .error cause := by
  rw [editEntries_eq, h]
  simp only [hedit]
  rfl

/-- An edit of the entries of a directory is refused where there is none. -/
theorem flat_editEntries_or_refused {root : Node} {path : List String}
    {edit : Entries Node → Except FileError (Entries Node)} {spec : Except FileError PathMap}
    (h : ∀ es s, root.find? path = some (.dir es s) → (root.editEntries path edit).map flat = spec) :
    (root.editEntries path edit).map flat =
      if root.flat.isDirAt path then spec else .error .noSuchDirectory := by
  by_cases hdir : root.flat.isDirAt path = true
  · obtain ⟨es, s, hpath⟩ := isDirAt_flat_iff.1 hdir
    rw [if_pos hdir, h es s hpath]
  · rw [if_neg hdir, editEntries_of_not_dir (Bool.eq_false_iff.2 hdir)]
    rfl

/-- An edit of one entry grafts the branch at that entry. -/
theorem flat_editEntries {root : Node} {parent : List String} {name : String}
    {es es' : Entries Node} {s : Stamps}
    {edit : Entries Node → Except FileError (Entries Node)}
    (h : root.find? parent = some (.dir es s)) (hedit : edit es = .ok es')
    (hothers : ∀ other ≠ name, es'.get? other = es.get? other) :
    (root.editEntries parent edit).map flat =
      .ok (root.flat.graft (parent ++ [name]) (flat? (es'.get? name))) := by
  have hedited : root.editEntries parent edit =
      .ok (root.modifyAt parent fun _ => .dir es' s) := by
    rw [editEntries_eq, h]
    simp only [hedit]
    rfl
  rw [hedited, Except.map]
  congr 1
  -- the directory comes back with one entry changed; its other entries are next to the graft
  apply PathMap.eq_graft
  · intro rest
    rw [List.append_assoc, List.singleton_append, flat_modifyAt h, PathMap.graft_append,
      flat_dir_cons]
  · intro p hp
    rw [flat_modifyAt h]
    by_cases hparent : parent <+: p
    · -- below the same directory, by another name
      obtain ⟨rest, rfl⟩ := hparent
      rw [PathMap.graft_append, flat_append, h, flat?_some]
      cases rest with
      | nil => rfl
      | cons x rest =>
        have hx : x ≠ name := by
          intro heq
          apply hp
          rw [heq, List.prefix_append_right_inj]
          exact List.cons_prefix_cons.2 ⟨rfl, List.nil_prefix⟩
        rw [flat_dir_cons, flat_dir_cons, hothers x hx]
    · rw [PathMap.graft_of_not_prefix hparent]

/-- Putting a node into a directory grafts its branch. -/
theorem flat_insertEntry {root : Node} {parent : List String} {es : Entries Node} {s : Stamps}
    {edit : Entries Node → Except FileError (Entries Node)} (name : String) (n : Node)
    (h : root.find? parent = some (.dir es s)) (hedit : edit es = .ok (es.insert name n)) :
    (root.editEntries parent edit).map flat =
      .ok (root.flat.graft (parent ++ [name]) n.flat) := by
  have hothers : ∀ other ≠ name, (es.insert name n).get? other = es.get? other :=
    fun other hother => Entries.get?_insert_of_ne hother n es
  rw [flat_editEntries h hedit hothers, Entries.get?_insert_self, flat?_some]

/-- Taking a node out of a directory takes its branch away. -/
theorem flat_eraseEntry {root : Node} {parent : List String} {es : Entries Node} {s : Stamps}
    (name : String) (h : root.find? parent = some (.dir es s)) :
    (root.editEntries parent fun es => .ok (es.erase name)).map flat =
      .ok (root.flat.graft (parent ++ [name]) PathMap.nowhere) := by
  have hothers : ∀ other ≠ name, (es.erase name).get? other = es.get? other :=
    fun other hother => Entries.get?_erase_of_ne hother es
  have hflat : (root.editEntries parent fun es => .ok (es.erase name)).map flat =
      .ok (root.flat.graft (parent ++ [name]) (flat? ((es.erase name).get? name))) :=
    flat_editEntries h rfl hothers
  rw [hflat, Entries.get?_erase_self, flat?_none]

/-! ## Leaves -/

/-- Nothing stands below the node, if there is one. -/
def IsLeaf (n : Option Node) : Prop :=
  ∀ rest, rest ≠ [] → flat? n rest = none

theorem isLeaf_none : IsLeaf none :=
  fun _ _ => rfl

theorem isLeaf_file (content : String) (s : Stamps) : IsLeaf (some (.file content s)) := by
  intro rest hrest
  cases rest with
  | nil => exact absurd rfl hrest
  | cons name names => rfl

theorem isLeaf_emptyDir (s : Stamps) : IsLeaf (some (.dir [] s)) := by
  intro rest hrest
  cases rest with
  | nil => exact absurd rfl hrest
  | cons name names => rfl

/-- A leaf in the place of a leaf changes the map at one path. -/
theorem graft_leaf {root : Node} {path : List String} {n : Option Node}
    (hold : IsLeaf (root.find? path)) (hnew : IsLeaf n) :
    root.flat.graft path (flat? n) = Function.update root.flat path (n.map record) := by
  have hroot : flat? n [] = n.map record := by
    cases n with
    | none => rfl
    | some n => exact flat_nil n
  rw [PathMap.graft_eq_update, hroot]
  intro rest hrest
  rw [hnew rest hrest, flat_append, hold rest hrest]

/-- What is found below a directory by one name is the entry with this name. -/
theorem find?_entry {root : Node} {parent : List String} {es : Entries Node} {s : Stamps}
    (h : root.find? parent = some (.dir es s)) (name : String) :
    root.find? (parent ++ [name]) = es.get? name := by
  rw [find?_append, h, Option.bind_some, find?]
  cases Entries.get? name es with
  | none => rfl
  | some n => exact find?_nil n

/-- The map below a directory has what is told of its entries. -/
theorem flat_entry {root : Node} {parent : List String} {es : Entries Node} {s : Stamps}
    (h : root.find? parent = some (.dir es s)) (name : String) :
    root.flat (parent ++ [name]) = (es.get? name).map record := by
  rw [flat, find?_entry h]

/-- Putting a leaf in the place of a leaf, or of nothing, changes the map at one path. -/
theorem flat_insertLeaf {root : Node} {parent : List String} {es : Entries Node} {s : Stamps}
    {edit : Entries Node → Except FileError (Entries Node)} (name : String) (n : Node)
    (h : root.find? parent = some (.dir es s)) (hedit : edit es = .ok (es.insert name n))
    (hold : IsLeaf (es.get? name)) (hnew : IsLeaf (some n)) :
    (root.editEntries parent edit).map flat =
      .ok (Function.update root.flat (parent ++ [name]) (some n.record)) := by
  rw [← find?_entry h name] at hold
  have hgraft := graft_leaf hold hnew
  rw [flat?_some, Option.map_some] at hgraft
  rw [flat_insertEntry name n h hedit, hgraft]

/-! ## Edits as changes of the flat map -/

/-- Writing a file is refused as the flat map says, and changes it as the flat map says. -/
theorem flat_putFile (now : Millis) (segs : List String) (content : String) (root : Node) :
    (root.putFile now segs content).map flat = root.flat.write now segs content := by
  rcases List.eq_nil_or_concat segs with rfl | ⟨parent, name, rfl⟩
  · rfl
  rw [List.concat_eq_append]
  have hne : parent ++ [name] ≠ [] := by simp
  simp only [putFile, splitLast?_append, PathMap.write, if_neg hne, List.dropLast_concat]
  -- a parent that is no directory is refused first, so one may be assumed
  apply flat_editEntries_or_refused
  intro es s hparent
  rw [flat_entry hparent]
  cases hn : Entries.get? name es with
  | none =>
    apply flat_insertLeaf name (newFile now content) hparent
    · simp only [hn]
    · exact hn ▸ isLeaf_none
    · exact isLeaf_file _ _
  | some n =>
    cases n with
    | dir es' s' =>
      rw [editEntries_of_error hparent (by simp only [hn]; rfl)]
      rfl
    | file old s' =>
      apply flat_insertLeaf name (.file content ⟨s'.created, now⟩) hparent
      · simp only [hn]
      · exact hn ▸ isLeaf_file _ _
      · exact isLeaf_file _ _

/-- Making a directory is refused as the flat map says, and changes it as the flat map says. -/
theorem flat_makeDir (now : Millis) (segs : List String) (root : Node) :
    (root.makeDir now segs).map flat = root.flat.makeDir now segs := by
  rcases List.eq_nil_or_concat segs with rfl | ⟨parent, name, rfl⟩
  · rfl
  rw [List.concat_eq_append]
  have hne : parent ++ [name] ≠ [] := by simp
  simp only [makeDir, splitLast?_append, PathMap.makeDir, if_neg hne, List.dropLast_concat]
  apply flat_editEntries_or_refused
  intro es s hparent
  rw [flat_entry hparent]
  cases hn : Entries.get? name es with
  | none =>
    apply flat_insertLeaf name (newDir now) hparent
    · simp only [hn]
    · exact hn ▸ isLeaf_none
    · exact isLeaf_emptyDir _
  | some n =>
    rw [editEntries_of_error hparent (by simp only [hn]; rfl)]
    rfl

/-- Unlinking a node below the root takes its branch away. -/
theorem flat_unlink {root n : Node} {path : String} (hne : Path.segments path ≠ [])
    (h : root.find? (Path.segments path) = some n) :
    (root.unlink path).map flat =
      .ok (root.flat.graft (Path.segments path) PathMap.nowhere) := by
  rw [unlink]
  rcases List.eq_nil_or_concat (Path.segments path) with hnil | ⟨parent, name, hsegs⟩
  · exact absurd hnil hne
  rw [List.concat_eq_append] at hsegs
  rw [hsegs] at h ⊢
  obtain ⟨es, s, hparent⟩ := find?_dropLast_dir h
  rw [splitLast?_append]
  exact flat_eraseEntry name hparent

/-- Unlinking a leaf changes the map at one path. -/
theorem flat_unlink_leaf {root n : Node} {path : String} (hne : Path.segments path ≠ [])
    (h : root.find? (Path.segments path) = some n) (hleaf : IsLeaf (some n)) :
    (root.unlink path).map flat =
      .ok (Function.update root.flat (Path.segments path) none) := by
  have hgraft := graft_leaf (h ▸ hleaf) isLeaf_none
  rw [flat?_none, Option.map_none] at hgraft
  rw [flat_unlink hne h, hgraft]

/-- Removing a directory is refused as the flat map says, and changes it as the flat map says. -/
theorem flat_removeDir (path : String) (root : Node) :
    (root.removeDir path).map flat = root.flat.removeDir (Path.segments path) := by
  rw [removeDir, PathMap.removeDir]
  cases hn : root.find? (Path.segments path) with
  | none =>
    rw [flat_eq_none_iff.2 hn]
    rfl
  | some n =>
    rw [flat_of_find? hn]
    cases n with
    | file content s => rfl
    | dir es s =>
      have hentry := hasEntry_flat_iff hn
      cases es with
      | cons e es =>
        rw [record]
        dsimp only
        rw [if_pos (hentry.2 (List.cons_ne_nil e es))]
        rfl
      | nil =>
        -- an empty directory is a leaf, so that taking it out changes one path
        have hbare : ¬ root.flat.HasEntry (Path.segments path) := fun h => hentry.1 h rfl
        rw [record]
        dsimp only
        rw [if_neg hbare]
        by_cases hsegs : Path.segments path = []
        · rw [if_pos hsegs, if_pos hsegs]
          rfl
        · rw [if_neg hsegs, if_neg hsegs]
          exact flat_unlink_leaf hsegs hn (isLeaf_emptyDir s)

/-- Removing a file is refused as the flat map says, and changes it as the flat map says. -/
theorem flat_removeFile {root : Node} (hroot : root.isDir = true) (path : String) :
    (root.removeFile path).map flat = root.flat.removeFile (Path.segments path) := by
  rw [removeFile, PathMap.removeFile]
  cases hn : root.find? (Path.segments path) with
  | none =>
    rw [flat_eq_none_iff.2 hn]
    rfl
  | some n =>
    rw [flat_of_find? hn]
    cases n with
    | dir es s => rfl
    | file content s =>
      -- The root is a directory, so a file is never where no segment leads.
      have hsegs : Path.segments path ≠ [] := by
        intro hnil
        rw [hnil, find?_nil, Option.some.injEq] at hn
        rw [hn] at hroot
        cases hroot
      exact flat_unlink_leaf hsegs hn (isLeaf_file content s)

theorem record_touch (now : Millis) (n : Node) : (n.touch now).record = n.record.touched now := by
  cases n <;> rfl

/-- A touch is refused as the flat map says, and changes the map as the flat map says. -/
theorem flat_touchAt (now : Millis) (segs : List String) (root : Node) :
    (root.touchAt now segs).map flat = root.flat.touch now segs := by
  rw [touchAt, PathMap.touch]
  cases hn : root.find? segs with
  | none =>
    rw [flat_eq_none_iff.2 hn]
    exact flat_putFile now segs "" root
  | some n =>
    -- only the node itself gets another moment, and nothing moves below it
    have hbelow : ∀ rest, rest ≠ [] → (n.touch now).flat rest = root.flat (segs ++ rest) := by
      intro rest hrest
      rw [flat_append, hn, flat?_some]
      cases rest with
      | nil => exact absurd rfl hrest
      | cons name names => cases n <;> rfl
    rw [flat_of_find? hn, Except.map, flat_modifyAt hn, PathMap.graft_eq_update hbelow, flat_nil,
      record_touch]

/-! ## Copies -/

/-- The entries of a copied directory are copies of its entries. -/
theorem get?_freshEntries (now : Millis) (name : String) (es : List (String × Node)) :
    Entries.get? name (freshEntries now es) = (Entries.get? name es).map (freshCopy now) := by
  induction es with
  | nil => rfl
  | cons e es ih =>
    obtain ⟨k, n⟩ := e
    rw [freshEntries, Entries.get?, Entries.get?]
    by_cases hk : name = k
    · rw [if_pos hk, if_pos hk, Option.map_some]
    · rw [if_neg hk, if_neg hk, ih]

/-- A copy has the same at every path below it, made at `now`. -/
theorem flat_freshCopy (now : Millis) (n : Node) (path : List String) :
    (n.freshCopy now).flat path = (n.flat path).map (Record.renewed now) := by
  -- along the path, as a copy is made entry by entry
  induction path generalizing n with
  | nil =>
    rw [flat_nil, flat_nil, Option.map_some]
    cases n <;> rfl
  | cons name names ih =>
    cases n with
    | file content s => rfl
    | dir es s =>
      rw [freshCopy, flat_dir_cons, flat_dir_cons, get?_freshEntries]
      cases Entries.get? name es with
      | none => rfl
      | some m => exact ih m

/-- A copy is refused as the flat map says, and grafts the renewed branch of the source. -/
theorem flat_copyTo (now : Millis) (source : List String) (dest : String) (root : Node) :
    (root.copyTo now source dest).map flat = root.flat.copy now source dest := by
  rw [copyTo, PathMap.copy]
  cases hn : root.find? source with
  | none =>
    rw [flat_eq_none_iff.2 hn]
    rfl
  | some n =>
    rw [flat_of_find? hn]
    dsimp only
    rcases List.eq_nil_or_concat (Path.segments dest) with hdest | ⟨parent, name, hdest⟩
    · rw [hdest]
      rfl
    rw [hdest, List.concat_eq_append]
    have hne : parent ++ [name] ≠ [] := by simp
    have hbranch : (n.freshCopy now).flat =
        fun rest => (root.flat (source ++ rest)).map (Record.renewed now) := by
      funext rest
      rw [flat_freshCopy, flat_append, hn, flat?_some]
    rw [if_neg hne, splitLast?_append, List.dropLast_concat]
    dsimp only
    -- whatever the edit is refused for, there is nowhere to put the copy
    by_cases hdir : root.flat.isDirAt parent = true
    · obtain ⟨es, s, hparent⟩ := isDirAt_flat_iff.1 hdir
      obtain ⟨after, hafter, hflat⟩ :
          ∃ after, (root.editEntries parent fun es => .ok (es.insert name (n.freshCopy now))) =
              .ok after ∧
            after.flat = root.flat.graft (parent ++ [name]) (n.freshCopy now).flat :=
        exists_of_map_eq_ok (flat_insertEntry name (n.freshCopy now) hparent rfl)
      rw [if_pos hdir, hafter, ← hbranch, ← hflat]
      rfl
    · rw [if_neg hdir, editEntries_of_not_dir (Bool.eq_false_iff.2 hdir)]
      rfl

end SimTerm.Node

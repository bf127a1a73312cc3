import SimTerm.Proofs.Json.RoundTrip
import SimTerm.Proofs.Node.Order

/-!
# Stored trees read back

A tree whose directories are sorted is read back from its stored text, unless the text is nested too
deeply for a reader. Every directory costs two levels, its own object and that of its entries, so
what can be read back are the trees whose directories have paths of at most 62 segments:
`decode?_encode`.
-/

namespace SimTerm.Node

/-! ## The layout and its reader -/

/-- A moment is read back. -/
theorem millis?_millisJson (t : Millis) : millis? (millisJson t) = some t := by
  have hlt : t.toNat < UInt64.size := t.toNat_lt
  rw [millisJson, millis?, if_pos hlt, UInt64.ofNat_toNat]

/-- The moments are found behind two members that are called something else. -/
theorem stamps?_behind {first second : String} (hfirst : first ∉ ["ctime", "mtime"])
    (hsecond : second ∉ ["ctime", "mtime"]) (j k : Json) (s : Stamps) :
    stamps? [fieldOf first j, fieldOf second k, fieldOf "ctime" (millisJson s.created),
      fieldOf "mtime" (millisJson s.modified)] = some s := by
  simp only [List.mem_cons, List.not_mem_nil, or_false, not_or] at hfirst hsecond
  simp [stamps?, memberField?, Json.member?, fieldOf, field?, millis?_millisJson, hfirst, hsecond]

mutual
/-- What a sorted tree is laid out as describes the tree. -/
theorem ofJson?_toJson (numbered : Bool) : ∀ n : Node, n.Ordered →
    ofJson? numbered n.toJson = some n
  | .file content s, _ => by
    rw [toJson, ofJson?, stamps?_behind (by decide) (by decide)]
    simp [kindOf?, kind?, memberField?, Json.member?, fieldOf, field?, text?]
  | .dir es s, h => by
    have hes := ordered_dir_iff.1 h
    have hpairs := pairsOf?_entriesJson es hes.ordered
    rw [toJson, ofJson?, stamps?_behind (by decide) (by decide)]
    simp [kindOf?, kind?, Json.member?, fieldOf, childrenOf?, entriesObject?, hpairs,
      Entries.ofList_of_sorted hes.sorted]

/-- Entries in order are read back, by induction together with the nodes. -/
theorem pairsOf?_entriesJson : ∀ es : List (String × Node), EntriesOrdered es →
    pairsOf? (entriesJson es) = some es
  | [], _ => by rw [entriesJson, pairsOf?]
  | (name, n) :: es, h => by
    rw [EntriesOrdered] at h
    simp only [entriesJson, pairsOf?, ofJson?_toJson true n h.1, pairsOf?_entriesJson es h.2]
end

/-! ## What a reader admits -/

theorem millisJson_legible (t : Millis) : (millisJson t).legible := by
  have hlead : Binary64.leadingDigits t.toNat = (t.toNat, 0) := if_pos t.toNat_lt
  simp [millisJson, Json.legible, Json.Numeral.isFinite, Binary64.finiteComputed, hlead]

mutual
/-- What is written for a node has no text that could not be read. -/
theorem toJson_legible : ∀ n : Node, n.toJson.legible
  | .file content s => by
    simp [toJson, Json.legible, Json.membersLegible, fieldOf, millisJson_legible]
  | .dir es s => by
    simp [toJson, Json.legible, Json.membersLegible, fieldOf, millisJson_legible,
      entriesJson_legible es]

/-- What is written for entries has no text that could not be read. -/
theorem entriesJson_legible : ∀ es : List (String × Node), Json.membersLegible (entriesJson es)
  | [] => by rw [entriesJson, Json.membersLegible]
  | (name, n) :: es => by
    simp [entriesJson, Json.membersLegible, toJson_legible n, entriesJson_legible es]
end

mutual
/-- How many objects are nested in the stored text of a tree. -/
def nesting : Node → Nat
  | .file .. => 1
  | .dir es _ => entriesNesting es + 2

/-- The greatest nesting of the entries. -/
def entriesNesting : List (String × Node) → Nat
  | [] => 0
  | (_, n) :: es => max n.nesting (entriesNesting es)
end

theorem depth_millisJson (t : Millis) : (millisJson t).depth = 0 := by
  rw [millisJson, Json.depth]
  intro _ h
  cases h
  intro _ h
  cases h

mutual
/-- The text of a node is nested as deeply as the node says. -/
theorem depth_toJson : ∀ n : Node, n.toJson.depth = n.nesting
  | .file content s => by
    simp [toJson, Json.depth, Json.membersDepth, fieldOf, depth_millisJson, nesting]
  | .dir es s => by
    simp [toJson, Json.depth, Json.membersDepth, fieldOf, depth_millisJson, nesting,
      depth_entriesJson es]

/-- The text of entries is nested as deeply as the entries say. -/
theorem depth_entriesJson : ∀ es : List (String × Node),
    Json.membersDepth (entriesJson es) = entriesNesting es
  | [] => by rw [entriesJson, Json.membersDepth, entriesNesting]
  | (name, n) :: es => by
    rw [entriesJson, Json.membersDepth, entriesNesting, depth_toJson n, depth_entriesJson es]
end

/-- No directory at or below the node lies as deep as this. -/
def DirsAbove (depth : Nat) (n : Node) : Prop :=
  ∀ path es s, n.find? path = some (.dir es s) → path.length < depth

/-- Entries are nested at most so deeply if each of their nodes is. -/
theorem entriesNesting_le_iff {es : List (String × Node)} {k : Nat} :
    entriesNesting es ≤ k ↔ ∀ e ∈ es, e.2.nesting ≤ k := by
  induction es with
  | nil => simp [entriesNesting]
  | cons e es ih =>
    obtain ⟨name, n⟩ := e
    rw [entriesNesting, Nat.max_le, ih, List.forall_mem_cons]

/-- A file has no directory below it. -/
theorem dirsAbove_file (depth : Nat) (content : String) (s : Stamps) :
    DirsAbove depth (.file content s) := by
  intro path es s' h
  cases path <;> cases h

/-- A directory may have one directory less below it than its own bound says. -/
theorem dirsAbove_dir_iff {es : Entries Node} (hes : es.Sorted) {depth : Nat} {s : Stamps} :
    DirsAbove (depth + 1) (.dir es s) ↔ ∀ e ∈ es, DirsAbove depth e.2 := by
  constructor
  · intro h e he path es' s' hfind
    have hget : Entries.get? e.1 es = some e.2 := Entries.get?_of_mem hes he
    have hlt := h (e.1 :: path) es' s' (by rw [find?, hget]; exact hfind)
    rw [List.length_cons] at hlt
    omega
  · intro h path es' s' hfind
    cases path with
    | nil => exact Nat.succ_pos depth
    | cons name names =>
      rw [find?] at hfind
      cases hget : Entries.get? name es with
      | none => simp [hget] at hfind
      | some n =>
        simp only [hget] at hfind
        exact Nat.succ_lt_succ (h _ (Entries.mem_of_get? hget) names es' s' hfind)

/-- Two levels for every directory on the way, and one for a file below. -/
theorem nesting_le_iff {n : Node} (h : n.Ordered) (k : Nat) :
    n.nesting ≤ 2 * k + 1 ↔ DirsAbove k n := by
  -- on the depth, for all nodes at once: a directory hands one level on to each of its entries
  induction k generalizing n with
  | zero =>
    cases n with
    | file content s => simp [nesting, dirsAbove_file]
    | dir es s =>
      have hroot : ¬ DirsAbove 0 (.dir es s) := fun habove =>
        Nat.not_lt_zero _ (habove [] es s (find?_nil _))
      simp [nesting, hroot]
  | succ k ih =>
    cases n with
    | file content s =>
      rw [nesting]
      exact iff_of_true (by omega) (dirsAbove_file _ content s)
    | dir es s =>
      have hes := ordered_dir_iff.1 h
      have hbelow : entriesNesting es ≤ 2 * k + 1 ↔ ∀ e ∈ es, DirsAbove k e.2 := by
        rw [entriesNesting_le_iff]
        constructor
        · intro hall e he
          exact (ih (entriesOrdered_iff.1 hes.ordered e he)).1 (hall e he)
        · intro hall e he
          exact (ih (entriesOrdered_iff.1 hes.ordered e he)).2 (hall e he)
      rw [dirsAbove_dir_iff hes.sorted, ← hbelow, nesting]
      omega

/-- The directories of a tree that can be read back have paths of fewer segments than this. -/
def readableDepth : Nat := 63

/-- A tree is readable exactly if not too many directories are inside one another. -/
theorem nesting_le_maxDepth_iff {n : Node} (h : n.Ordered) :
    n.nesting ≤ Json.maxDepth ↔ DirsAbove readableDepth n :=
  nesting_le_iff h readableDepth

/-- A stored tree is read back if it is not nested too deeply, and else it is not read. -/
theorem decode?_encode {n : Node} (h : n.Ordered) :
    decode? n.encode = if n.nesting ≤ Json.maxDepth then some n else none := by
  have hadmitted : n.toJson.admitted = decide (n.nesting ≤ Json.maxDepth) := by
    rw [Json.admitted, toJson_legible, Bool.and_true, depth_toJson]
  rw [decode?, encode, Json.readStored?_compact, hadmitted]
  by_cases hn : n.nesting ≤ Json.maxDepth
  · rw [decide_eq_true hn, if_pos rfl, if_pos hn, Option.bind_some, ofJson?_toJson false n h]
  · rw [decide_eq_false hn, if_neg Bool.false_ne_true, if_neg hn, Option.bind_none]

end SimTerm.Node

import SimTerm.Proofs.Node.Codec
import SimTerm.Proofs.Text.Bytes

/-!
# The text of a stored tree

`storedText` is the stored text of a tree put together from its parts, with no detour over JSON
values: an object of four fields for every node, and between the braces of a directory its entries,
each behind its name and parted by commas. It is what is stored (`encode_eq_storedText`), the names
stand in it in the order of their bytes, and it is read back unless it is nested too deeply
(`storedText_read_back`). Even a text too deep to be read is that of one tree only
(`encode_injective`).
-/

namespace SimTerm.Node

/-! ## The parts -/

/-- A text between quotes, escaped where it has to be. -/
def literal (text : String) : String :=
  String.ofList (Json.quoted text.toList)

/-- The end of the text of a node: its moments in decimal digits. -/
def momentsText (s : Stamps) : String :=
  ",\"ctime\":" ++ s.created.toNat.repr ++ ",\"mtime\":" ++ s.modified.toNat.repr ++ "\x7d"

/-- The text of a file. -/
def fileText (content : String) (s : Stamps) : String :=
  "\x7b\"type\":\"file\",\"content\":" ++ literal content ++ momentsText s

/-- The text of a directory, given the texts of its entries. -/
def dirText (entries : List String) (s : Stamps) : String :=
  "\x7b\"type\":\"dir\",\"children\":\x7b" ++ ",".intercalate entries ++ "\x7d" ++ momentsText s

/-- The text of an entry, given the text of its node. -/
def entryText (name node : String) : String :=
  literal name ++ ":" ++ node

mutual
/-- The text that is stored for a node, without blanks. -/
def storedText : Node → String
  | .file content s => fileText content s
  | .dir es s => dirText (entryTexts es) s

/-- The texts of the entries, in their order. -/
def entryTexts : List (String × Node) → List String
  | [] => []
  | (name, n) :: es => entryText name n.storedText :: entryTexts es
end

/-! ## What is stored -/

/-- A quoted text is written as the printer writes strings. -/
theorem toList_literal (text : String) :
    (literal text).toList = Json.renderString (some text) := by
  rw [literal, String.toList_ofList, Json.renderString]

/-- A moment is written as the printer writes numbers. -/
theorem toList_repr (t : Millis) : t.toNat.repr.toList = (millisJson t).render := by
  rw [Nat.repr, String.toList_ofList, millisJson, Json.render, Json.Numeral.render,
    Json.Numeral.digitsOf]

/-- The object of a node: its kind, what it holds, and its moments. -/
theorem render_fields (kind field : String) (j : Json) (s : Stamps) :
    Json.render (.object [fieldOf "type" (.string (some kind)), fieldOf field j,
        fieldOf "ctime" (millisJson s.created), fieldOf "mtime" (millisJson s.modified)]) =
      "\x7b\"type\":".toList ++ Json.renderString (some kind) ++ ',' ::
        Json.renderString (some field) ++ ':' :: j.render ++ (momentsText s).toList := by
  simp only [momentsText, String.toList_append, toList_repr, Json.render, Json.renderMembers,
    fieldOf]
  simp [Json.renderString, Json.quoted, Json.escape, Json.escapeChar]

/-- A file is written as the printer writes its value. -/
theorem toList_fileText (content : String) (s : Stamps) :
    (fileText content s).toList = (Node.file content s).toJson.render := by
  rw [toJson, render_fields, Json.render]
  -- to rewrite with the definition would be to evaluate its long literal, so here it is unfolded
  unfold fileText
  simp only [String.toList_append, toList_literal]
  simp [Json.renderString, Json.quoted, Json.escape, Json.escapeChar]

/-- What a directory is stored as, given what its entries are stored as. -/
theorem toList_dirText {entries : List String} {es : List (String × Node)}
    (h : (",".intercalate entries).toList = Json.renderMembers (entriesJson es)) (s : Stamps) :
    (dirText entries s).toList = (Node.dir es s).toJson.render := by
  rw [toJson, render_fields, Json.render]
  unfold dirText
  simp only [String.toList_append, h]
  simp [Json.renderString, Json.quoted, Json.escape, Json.escapeChar]

/-- An entry is written as the printer writes a member. -/
theorem toList_entryText {node : String} {n : Node} (h : node.toList = n.toJson.render)
    (name : String) :
    (entryText name node).toList = Json.renderString (some name) ++ ':' :: n.toJson.render := by
  rw [entryText, String.toList_append, String.toList_append, toList_literal, h]
  simp

mutual
/-- A node is written as the printer writes its value, by induction together with the entries. -/
theorem toList_storedText : ∀ n : Node, n.storedText.toList = n.toJson.render
  | .file content s => by
    rw [storedText]
    exact toList_fileText content s
  | .dir es s => by
    rw [storedText]
    exact toList_dirText (toList_entryTexts es) s

/-- Entries are written as the printer writes members. -/
theorem toList_entryTexts : ∀ es : List (String × Node),
    (",".intercalate (entryTexts es)).toList = Json.renderMembers (entriesJson es)
  | [] => by
    rw [entryTexts, String.intercalate_nil, entriesJson, Json.renderMembers]
    simp
  | [(name, n)] => by
    rw [entryTexts, entryTexts, String.intercalate_singleton, entriesJson, entriesJson,
      Json.renderMembers]
    exact toList_entryText (toList_storedText n) name
  | (name, n) :: (name', n') :: es => by
    have hentry := toList_entryText (toList_storedText n) name
    have hrest := toList_entryTexts ((name', n') :: es)
    rw [entryTexts, entriesJson] at hrest ⊢
    rw [entryTexts, String.intercalate_cons_cons, String.toList_append, String.toList_append,
      hentry, hrest, entriesJson]
    simp [Json.renderMembers]
end

/-- What is stored of a tree is put together from its parts. -/
theorem encode_eq_storedText (n : Node) : n.encode = n.storedText := by
  rw [encode, Json.compact, ← toList_storedText, String.ofList_toList]

/-! ## What is read back -/

/-- The names of a directory ascend byte by byte. -/
theorem names_ascend {n : Node} (h : n.Ordered) {path : List String} {es : Entries Node}
    {s : Stamps} (hdir : n.find? path = some (.dir es s)) :
    (es.names.map Text.bytes).Pairwise (· < ·) := by
  have htable : IsTable es := ordered_dir_iff.1 (ordered_of_find? h hdir)
  rw [Entries.names, List.map_map]
  apply List.pairwise_map.2
  exact htable.sorted.imp Text.bytes_lt_of_lt

/-- A text is the stored text of one tree only, readable or not. -/
theorem encode_injective {m n : Node} (hm : m.Ordered) (hn : n.Ordered)
    (h : m.encode = n.encode) : m = n := by
  have hjson : m.toJson = n.toJson := by
    have hread := congrArg Json.read? h
    rw [encode, encode, Json.read?_compact, Json.read?_compact] at hread
    exact Option.some.inj hread
  have hnode := ofJson?_toJson false m hm
  rw [hjson, ofJson?_toJson false n hn] at hnode
  exact (Option.some.inj hnode).symm

/-- The stored text of a tree: the layout of `storedText`, with the names of every directory in the
order of their bytes. A reader gets the same tree from it, or nothing if more than 127 objects are
nested in it. -/
theorem storedText_read_back {n : Node} (h : n.Ordered) :
    n.encode = n.storedText ∧
      (∀ path es s, n.find? path = some (.dir es s) →
        ((Entries.names es).map Text.bytes).Pairwise (· < ·)) ∧
      decode? n.storedText = if n.nesting ≤ 127 then some n else none := by
  refine ⟨encode_eq_storedText n, ?_, ?_⟩
  · intro path es s hdir
    exact names_ascend h hdir
  · rw [← encode_eq_storedText]
    exact decode?_encode h

/-- Names that are those of fields, a content to be escaped, and moments at both ends. -/
theorem storedText_read_back_like_fields :
    let n : Node :=
      .dir [("children", .dir [] ⟨0, 0⟩), ("type", .file "\"\n" ⟨1, 18446744073709551615⟩)] ⟨2, 3⟩
    n.Ordered ∧ n.nesting ≤ 127 ∧
      n.encode = "\x7b\"type\":\"dir\",\"children\":\x7b" ++
        "\"children\":\x7b\"type\":\"dir\",\"children\":\x7b\x7d,\"ctime\":0,\"mtime\":0\x7d," ++
        "\"type\":\x7b\"type\":\"file\",\"content\":\"\\\"\\n\"," ++
        "\"ctime\":1,\"mtime\":18446744073709551615\x7d\x7d,\"ctime\":2,\"mtime\":3\x7d" ∧
      decode? n.encode = some n := by
  intro n
  have hnames : "children" < "type" := by decide
  have hordered : n.Ordered := by
    apply ordered_dir_iff.2
    exact ⟨List.pairwise_pair.2 hnames, ordered_dir_iff.2 isTable_nil, ordered_file _ _, trivial⟩
  have hnesting : n.nesting ≤ 127 := by decide
  obtain ⟨hencode, -, hdecode⟩ := storedText_read_back hordered
  rw [if_pos hnesting] at hdecode
  refine ⟨hordered, hnesting, ?_, ?_⟩
  · rw [hencode]
    decide +kernel
  · rw [hencode]
    exact hdecode

end SimTerm.Node

import SimTerm.Proofs.Bookmarks
import SimTerm.Proofs.FileSystem.WriteThrough
import SimTerm.Proofs.Node.Codec

/-!
# Opening a storage that refuses to be read

A storage holds a readable tree and readable bookmarks, but refuses some of the loads that opening
makes. A refused load is answered by the default state, so it costs the text it was about and no
other: the default tree is stored at once, in the place of the tree that could not be loaded, and the
empty table is stored with the first bookmark that is added. A text whose load was not refused is
kept, and so is every bookmark that no later call touches: `refused_loads_cost_their_own_text`.
-/

namespace SimTerm.FileSystem

/-! ## What opening finds -/

/-- The words with which a storage refuses to tell the bookmarks when it is opened, if it does. -/
def marksRefusal? (s : Storage) : Option String :=
  s.refused? .load bookmarksKey

/-- The words with which a storage refuses to tell the tree when it is opened, if it does. -/
def treeRefusal? (s : Storage) : Option String :=
  (s.counted .load).refused? .load treeKey

/-- The bookmarks in memory are the stored ones, or none if they could not be loaded. -/
theorem bookmarks_open_eq {s : Storage} {text : String} {marks : Bookmarks}
    (htext : s.text? bookmarksKey = some text) (hmarks : Bookmarks.decode? text = some marks)
    (now : Millis) (options : TreeOptions) :
    (FileSystem.open s now options).bookmarks = if marksRefusal? s = none then marks else [] := by
  rw [bookmarks_open, bookmarksAnswer]
  cases h : marksRefusal? s with
  | some words =>
    rw [Storage.load_of_refused h, if_neg (Option.some_ne_none words)]
    rfl
  | none =>
    rw [Storage.load_of_not_refused h, if_pos rfl, htext, bookmarksOfAnswer, hmarks,
      Option.getD_some]

/-- A readable tree is what opening finds, unless it could not be loaded. -/
theorem treeOfAnswer?_treeAnswer {s : Storage} {text : String} {root : Node}
    (htext : s.text? treeKey = some text) (hroot : Node.decode? text = some root)
    (hdir : root.isDir = true) :
    treeOfAnswer? (treeAnswer s) = if treeRefusal? s = none then some root else none := by
  rw [treeAnswer, Storage.storage_load]
  cases h : treeRefusal? s with
  | some words =>
    rw [Storage.load_of_refused h, if_neg (Option.some_ne_none words)]
    rfl
  | none =>
    rw [Storage.load_of_not_refused h, if_pos rfl, Storage.text?_counted, htext, treeOfAnswer?, hroot,
      Option.filter_some, if_pos hdir]

/-- Opening leaves the stored bookmarks alone, whatever is refused. -/
theorem text?_bookmarksKey_open (s : Storage) (now : Millis) (options : TreeOptions) :
    (FileSystem.open s now options).storage.text? bookmarksKey = s.text? bookmarksKey := by
  cases h : treeOfAnswer? (treeAnswer s) with
  | some root =>
    rw [open_of_tree h]
    exact text?_asked s bookmarksKey
  | none =>
    rw [open_of_no_tree h]
    have hasked : (unstored s now options).storage.text? bookmarksKey = s.text? bookmarksKey :=
      text?_asked s bookmarksKey
    rcases storeTree_cases (unstored s now options) with ⟨_, -, heq⟩ | ⟨-, heq⟩
    · rw [heq]
      exact hasked
    · rw [heq]
      exact (TreeStep.withTree _ _).marksText.trans hasked

/-- A readable tree is left alone if it could be loaded, and else the default one takes its place. -/
theorem text?_treeKey_open {s : Storage} {text : String} {root : Node}
    (htext : s.text? treeKey = some text) (hroot : Node.decode? text = some root)
    (hdir : root.isDir = true) (hsave : s.refused? .save treeKey = none) (now : Millis)
    (options : TreeOptions) :
    (FileSystem.open s now options).storage.text? treeKey =
      some (if treeRefusal? s = none then text else (options.defaultTree now).encode) := by
  have hfound := treeOfAnswer?_treeAnswer htext hroot hdir
  cases hrefusal : treeRefusal? s with
  | none =>
    rw [hrefusal, if_pos rfl] at hfound
    rw [open_of_tree hfound, if_pos rfl]
    exact (text?_asked s treeKey).trans htext
  | some words =>
    rw [hrefusal, if_neg (Option.some_ne_none words)] at hfound
    rw [open_of_no_tree hfound, if_neg (Option.some_ne_none words)]
    -- the two loads that came before are not counted among the saves
    have hunrefused : (unstored s now options).storage.refused? .save treeKey = none := by
      rw [unstored, asked, Storage.storage_load, Storage.storage_load]
      exact hsave
    rcases storeTree_cases (unstored s now options) with ⟨_, hrefused, -⟩ | ⟨-, heq⟩
    · cases hunrefused.symm.trans hrefused
    · rw [heq]
      exact Storage.text?_saved_self _ _ _

/-! ## What later calls leave -/

/-- The call may change what a name stands for. -/
def Call.touches (name : String) : Call → Bool
  | .change (.addBookmark other _) => other = name
  | .change (.removeBookmark other) => other = name
  | .reset => true
  | _ => false

/-- A call leaves the table sorted, and every name alone that it does not touch. -/
theorem perform_bookmarks {fs : FileSystem} (hs : fs.bookmarks.Sorted) (c : Call) :
    (fs.perform c).2.bookmarks.Sorted ∧ ∀ name, c.touches name = false →
      (fs.perform c).2.bookmarks.get? name = fs.bookmarks.get? name := by
  cases c with
  | change c =>
    cases hmarks : c.ofBookmarks with
    | false =>
      have hsame : (fs.perform (.change c)).2.bookmarks = fs.bookmarks :=
        (change_treeStep fs hmarks).bookmarks
      rw [hsame]
      exact ⟨hs, fun _ _ => rfl⟩
    | true =>
      refine ⟨(change_marksStep hs hmarks).sorted, fun name hname => ?_⟩
      cases c with
      | addBookmark other path =>
        have hne : name ≠ other := fun heq => of_decide_eq_false hname heq.symm
        rcases addBookmark_cases hs other path with ⟨_, -, heq⟩ | heq
        · rw [perform, change, heq]
          rfl
        · rw [perform, change, heq]
          exact Entries.get?_insert_of_ne hne path fs.bookmarks
      | removeBookmark other =>
        have hne : name ≠ other := fun heq => of_decide_eq_false hname heq.symm
        rcases removeBookmark_cases hs other with ⟨_, -, heq⟩ | heq
        · rw [perform, change, heq]
          rfl
        · rw [perform, change, heq]
          exact Entries.get?_erase_of_ne hne fs.bookmarks
      | _ => cases hmarks
  | query q => exact ⟨hs, fun _ _ => rfl⟩
  | reset => exact ⟨Entries.sorted_nil, fun _ hname => Bool.noConfusion hname⟩
  | clock now => exact ⟨hs, fun _ _ => rfl⟩

/-- Any calls leave the table sorted, and every name alone that none of them touches. -/
theorem after_bookmarks {fs : FileSystem} (hs : fs.bookmarks.Sorted) (calls : List Call) :
    (fs.after calls).bookmarks.Sorted ∧ ∀ name, (∀ c ∈ calls, c.touches name = false) →
      (fs.after calls).bookmarks.get? name = fs.bookmarks.get? name := by
  induction calls generalizing fs with
  | nil => exact ⟨hs, fun _ _ => rfl⟩
  | cons c calls ih =>
    obtain ⟨hsorted, hstep⟩ := perform_bookmarks hs c
    obtain ⟨hafter, hrest⟩ := ih hsorted
    refine ⟨hafter, fun name hname => ?_⟩
    rw [List.forall_mem_cons] at hname
    exact (hrest name hname.2).trans (hstep name hname.1)

/-- What is stored once a bookmark has been added: the table in memory with that bookmark. -/
theorem addBookmark_stored {fs : FileSystem} (hs : fs.bookmarks.Sorted) {name path : String}
    (hok : (fs.addBookmark name path).1 = .ok ()) :
    (fs.addBookmark name path).2.storage.text? bookmarksKey =
      some (Bookmarks.encode (fs.bookmarks.insert name path)) := by
  rcases addBookmark_cases hs name path with ⟨_, -, heq⟩ | heq
  · rw [heq] at hok
    cases hok
  · rw [heq]
    exact Storage.text?_saved_self _ _ _

/-! ## What a refused load costs -/

/-- A storage with a readable tree and readable bookmarks is opened, and some loads are refused.
The stored bookmarks are what they were, and so is the stored tree if its load was not refused; if
it was, the default tree is stored instead. After any later calls, adding a bookmark stores a table
that can be read, with that bookmark in it; a name that no call touched stands in it for what it
stood for in the stored table, or for nothing if the load of the bookmarks was refused. -/
theorem refused_loads_cost_their_own_text {s : Storage} {treeText marksText : String} {root : Node}
    {marks : Bookmarks} (htree : s.text? treeKey = some treeText)
    (hroot : Node.decode? treeText = some root) (hdir : root.isDir = true)
    (htable : s.text? bookmarksKey = some marksText)
    (hmarks : Bookmarks.decode? marksText = some marks)
    (hsave : s.refused? .save treeKey = none) (now : Millis) (options : TreeOptions) :
    let fs := FileSystem.open s now options
    fs.storage.text? bookmarksKey = some marksText ∧
      fs.storage.text? treeKey =
        some (if treeRefusal? s = none then treeText else (options.defaultTree now).encode) ∧
      ∀ (calls : List Call) (name path : String),
        ((fs.after calls).addBookmark name path).1 = .ok () →
          ∃ text table,
            ((fs.after calls).addBookmark name path).2.storage.text? bookmarksKey = some text ∧
              Bookmarks.decode? text = some table ∧ table.get? name = some path ∧
              ∀ other, other ≠ name → (∀ c ∈ calls, c.touches other = false) →
                table.get? other = if marksRefusal? s = none then marks.get? other else none := by
  intro fs
  refine ⟨(text?_bookmarksKey_open s now options).trans htable,
    text?_treeKey_open htree hroot hdir hsave now options, fun calls name path hok => ?_⟩
  obtain ⟨hsorted, huntouched⟩ := after_bookmarks (open_bookmarks_sorted s now options) calls
  refine ⟨_, _, addBookmark_stored hsorted hok,
    Bookmarks.decode?_encode (hsorted.insert name path), Entries.get?_insert_self _ _ _,
    fun other hne hother => ?_⟩
  rw [Entries.get?_insert_of_ne hne, huntouched other hother,
    bookmarks_open_eq htable hmarks now options]
  split <;> rfl

/-- A storage with an empty directory and one bookmark that refuses to load under some keys. -/
def withheld (keys : List String) : Storage :=
  { texts := [(bookmarksKey, Bookmarks.encode [("a", "/x")]), (treeKey, (Node.newDir 5).encode)]
    refusal := fun call key _ =>
      if call = .load ∧ key ∈ keys then some "load refused" else none }

/-- The tree that the storage withholds could be read. -/
theorem decode?_withheld_tree : Node.decode? (Node.newDir 5).encode = some (Node.newDir 5) := by
  rw [Node.decode?_encode (Node.newDir_isTree 5).ordered]
  exact if_pos (by decide)

/-- The bookmarks that the storage withholds could be read. -/
theorem decode?_withheld_bookmarks :
    Bookmarks.decode? (Bookmarks.encode [("a", "/x")]) = some [("a", "/x")] :=
  Bookmarks.decode?_encode (List.pairwise_singleton _ _)

/-- Where only the tree is refused, the bookmark is kept. -/
theorem refused_tree_costs_only_the_tree :
    let fs := FileSystem.open (withheld [treeKey]) 9 {}
    fs.storage.text? bookmarksKey = some (Bookmarks.encode [("a", "/x")]) ∧
      fs.storage.text? treeKey = some (TreeOptions.defaultTree {} 9).encode ∧
      ∃ text table,
        (fs.addBookmark "b" "/y").2.storage.text? bookmarksKey = some text ∧
          Bookmarks.decode? text = some table ∧ table.get? "b" = some "/y" ∧
          table.get? "a" = some "/x" := by
  intro fs
  obtain ⟨hmarks, htree, hadd⟩ := refused_loads_cost_their_own_text (s := withheld [treeKey]) rfl
    decode?_withheld_tree rfl rfl decode?_withheld_bookmarks rfl 9 {}
  obtain ⟨text, table, hstored, hread, hnew, hold⟩ := hadd [] "b" "/y" rfl
  exact ⟨hmarks, htree, text, table, hstored, hread, hnew, hold "a" (by decide) (List.forall_mem_nil _)⟩

/-- Where both loads are refused, opening replaces a readable tree by the default one, and the first
bookmark that is added takes the place of the readable table. -/
theorem refused_loads_lose_both :
    let s := withheld [treeKey, bookmarksKey]
    let fs := FileSystem.open s 1000 {}
    (∃ text, s.text? treeKey = some text ∧ Node.decode? text = some (Node.newDir 5)) ∧
      (∃ text, s.text? bookmarksKey = some text ∧ Bookmarks.decode? text = some [("a", "/x")]) ∧
      (∀ key made, s.refusal .save key made = none) ∧
      fs.storage.text? treeKey ≠ s.text? treeKey ∧
      (fs.addBookmark "b" "/y").1 = .ok () ∧
      ∃ text, (fs.addBookmark "b" "/y").2.storage.text? bookmarksKey = some text ∧
        Bookmarks.decode? text = some [("b", "/y")] := by
  intro s fs
  have hok : (fs.addBookmark "b" "/y").1 = .ok () := rfl
  have hadd := addBookmark_stored (open_bookmarks_sorted s 1000 {}) hok
  refine ⟨⟨_, rfl, decode?_withheld_tree⟩, ⟨_, rfl, decode?_withheld_bookmarks⟩, fun _ _ => rfl, ?_,
    hok, _, hadd, ?_⟩
  · decide +kernel
  · exact Bookmarks.decode?_encode (List.pairwise_singleton _ _)

end SimTerm.FileSystem

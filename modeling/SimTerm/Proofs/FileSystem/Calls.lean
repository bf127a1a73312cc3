import SimTerm.Proofs.FileSystem.Commit

/-!
# The calls of a file system

The calls as data: a `Change` changes the tree or the bookmarks, a `Query` only reads, and a `Call`
is one of them, a reset, or a new reading of the clock. `change_tree_induction` reduces every change
of the tree to commits of edits that keep trees, and `change_bookmarks_cases` those of bookmarks to
adding and removing one; what holds of all changes is derived from the two.
-/

namespace SimTerm.FileSystem

/-! ## Calls as data -/

/-- A call that changes the tree or the bookmarks. -/
inductive Change where
  | writeFile (path content : String)
  | makeFile (path : String)
  | makeDir (path : String)
  | removeDir (path : String)
  | removeFile (path : String)
  | touch (path : String)
  | copy (source dest : String)
  | move (source dest : String)
  | addBookmark (name path : String)
  | removeBookmark (name : String)
deriving DecidableEq, Repr

/-- A call that only reads. -/
inductive Query where
  | node (path : String)
  | info (path : String)
  | list (path : String)
  | read (path : String)
  | find (name path : String)
  | seek (text path : String)
  | outline (path : String)
  | totalSize (path : String)
  | checksum (path : String)
  | resolve (user cwd input : String)
  | bookmarks
deriving DecidableEq, Repr

/-- What a query is answered with. -/
def Query.Answer : Query → Type
  | .node _ => Option Node
  | .info _ => Option Info
  | .list _ => Option (List (String × Kind))
  | .read _ => Option String
  | .find .. => List String
  | .seek .. => List String
  | .outline _ => Option (List String)
  | .totalSize _ => Nat
  | .checksum _ => Option String
  | .resolve .. => String
  | .bookmarks => Bookmarks

/-- Answer a query. -/
def ask (fs : FileSystem) : (q : Query) → q.Answer
  | .node path => fs.node? path
  | .info path => fs.info? path
  | .list path => fs.list? path
  | .read path => fs.read? path
  | .find name path => fs.find name path
  | .seek text path => fs.seek text path
  | .outline path => fs.outline? path
  | .totalSize path => fs.totalSize path
  | .checksum path => fs.checksum? path
  | .resolve user cwd input => fs.resolve user cwd input
  | .bookmarks => fs.bookmarks

/-- Make a change. -/
def change (fs : FileSystem) : Change → Except Failure Unit × FileSystem
  | .writeFile path content => fs.writeFile path content
  | .makeFile path => fs.makeFile path
  | .makeDir path => fs.makeDir path
  | .removeDir path => fs.removeDir path
  | .removeFile path => fs.removeFile path
  | .touch path => fs.touch path
  | .copy source dest => fs.copy source dest
  | .move source dest => fs.move source dest
  | .addBookmark name path => fs.addBookmark name path
  | .removeBookmark name => fs.removeBookmark name

/-- The change is one of the bookmarks, and else one of the tree. -/
def Change.ofBookmarks : Change → Bool
  | .addBookmark .. => true
  | .removeBookmark _ => true
  | _ => false

/-- The change writes granted contents and marks granted paths only. -/
def Change.Granted (path content : String → Prop) : Change → Prop
  | .writeFile _ text => content text
  | .addBookmark _ target => path target
  | _ => True

/-- Anything that can be asked of an open file system, and a new reading of its clock. -/
inductive Call where
  | change (c : Change)
  | query (q : Query)
  | reset
  | clock (now : Millis)
deriving DecidableEq, Repr

/-- What a call is answered with. -/
def Call.Answer : Call → Type
  | .change _ => Except Failure Unit
  | .query q => q.Answer
  | .reset => Except Failure Unit
  | .clock _ => Unit

/-- Make a call. -/
def perform (fs : FileSystem) : (c : Call) → c.Answer × FileSystem
  | .change c => fs.change c
  | .query q => (fs.ask q, fs)
  | .reset => fs.reset
  | .clock now => ((), { fs with now })

/-- The file system after calls in order. -/
def after (fs : FileSystem) (calls : List Call) : FileSystem :=
  calls.foldl (fun fs c => (fs.perform c).2) fs

/-! ## What a change comes to -/

/-- The edit makes trees of trees. -/
def KeepsTrees (edit : Node → Except FileError Node) : Prop :=
  ∀ root edited : Node, root.IsTree → edit root = .ok edited → edited.IsTree

/-- A move from a path to itself changes nothing and says whether there is something. -/
theorem move_of_same {fs : FileSystem} {source dest : String}
    (h : Path.segments source = Path.segments dest) :
    fs.move source dest =
      (match fs.root.find? (Path.segments source) with
        | some _ => .ok ()
        | none => .error (.file .noSuchSource), fs) := by
  simp only [move, if_pos h]
  cases fs.root.find? (Path.segments source) <;> rfl

/-- A move below the source or onto what the source is in is refused. -/
theorem move_of_within {fs : FileSystem} {source dest : String}
    (hne : Path.segments source ≠ Path.segments dest)
    (h : Path.segments source <+: Path.segments dest ∨
      Path.segments dest <+: Path.segments source) :
    fs.move source dest = (.error (.file (.invalidPath dest)), fs) := by
  have hprefix : ((Path.segments source).isPrefixOf (Path.segments dest) ||
      (Path.segments dest).isPrefixOf (Path.segments source)) = true := by
    rw [Bool.or_eq_true, List.isPrefixOf_iff_prefix, List.isPrefixOf_iff_prefix]
    exact h
  simp only [move, if_neg hne, if_pos hprefix]

/-- Moving between paths that are apart is copying and then taking the source away. -/
theorem move_of_apart (fs : FileSystem) {source dest : String}
    (hsrc : ¬ Path.segments source <+: Path.segments dest)
    (hdst : ¬ Path.segments dest <+: Path.segments source) :
    fs.move source dest =
      match fs.copy source dest with
      | (.ok (), fs) => fs.commit (Node.unlink source)
      | (.error failure, fs) => (.error failure, fs) := by
  have hne : Path.segments source ≠ Path.segments dest := fun heq =>
    hsrc (heq ▸ List.prefix_refl (Path.segments source))
  have hprefix : ¬ ((Path.segments source).isPrefixOf (Path.segments dest) ||
      (Path.segments dest).isPrefixOf (Path.segments source)) = true := by
    rw [Bool.or_eq_true, List.isPrefixOf_iff_prefix, List.isPrefixOf_iff_prefix]
    exact not_or.2 ⟨hsrc, hdst⟩
  exact (if_neg hne).trans (if_neg hprefix)

/-- A move that is not refused from the start is a copy followed by an unlinking. -/
theorem move_cases (fs : FileSystem) (source dest : String) :
    (∃ result, fs.move source dest = (result, fs) ∧
        (result = .ok () → Path.segments source = Path.segments dest)) ∨
      (Path.segments source ≠ Path.segments dest ∧
        ¬ Path.segments source <+: Path.segments dest ∧
        ¬ Path.segments dest <+: Path.segments source ∧
        ((∃ failure, (fs.copy source dest).1 = .error failure ∧
            fs.move source dest = fs.copy source dest) ∨
          ((fs.copy source dest).1 = .ok () ∧
            fs.move source dest =
              (fs.copy source dest).2.commit (Node.unlink source)))) := by
  by_cases hsame : Path.segments source = Path.segments dest
  · exact Or.inl ⟨_, move_of_same hsame, fun _ => hsame⟩
  by_cases hwithin : Path.segments source <+: Path.segments dest ∨
      Path.segments dest <+: Path.segments source
  · exact Or.inl ⟨_, move_of_within hsame hwithin, fun h => (nomatch h)⟩
  obtain ⟨hsrc, hdst⟩ := not_or.1 hwithin
  refine Or.inr ⟨hsame, hsrc, hdst, ?_⟩
  rw [move_of_apart fs hsrc hdst]
  split
  · next copied hcopy => exact Or.inr ⟨by rw [hcopy], by rw [hcopy]⟩
  · next failure copied hcopy => exact Or.inl ⟨failure, by rw [hcopy], by rw [hcopy]⟩

/-- Every change of the tree but a move commits an edit that keeps trees. -/
theorem change_eq_commit (fs : FileSystem) {c : Change} (htree : c.ofBookmarks = false)
    (hmove : ∀ source dest, c ≠ .move source dest) :
    ∃ edit, KeepsTrees edit ∧ fs.change c = fs.commit edit := by
  cases c with
  | writeFile path content => exact ⟨_, fun _ _ h => Node.putFile_isTree h, rfl⟩
  | makeFile path => exact ⟨_, fun _ _ h => Node.putFile_isTree h, rfl⟩
  | makeDir path => exact ⟨_, fun _ _ h => Node.makeDir_isTree h, rfl⟩
  | removeDir path => exact ⟨_, fun _ _ h => Node.removeDir_isTree h, rfl⟩
  | removeFile path => exact ⟨_, fun _ _ h => Node.removeFile_isTree h, rfl⟩
  | touch path => exact ⟨_, fun _ _ h => Node.touchAt_isTree h, rfl⟩
  | copy source dest => exact ⟨_, fun _ _ h => Node.copyTo_isTree h, rfl⟩
  | move source dest => exact absurd rfl (hmove source dest)
  | addBookmark name path => cases htree
  | removeBookmark name => cases htree

/-- What one commit after another keeps, every change of the tree keeps. -/
theorem change_tree_induction {P : FileSystem → FileSystem → Prop}
    (hrefl : ∀ fs, P fs fs) (htrans : ∀ a b c, P a b → P b c → P a c)
    (hcommit : ∀ fs edit, KeepsTrees edit → P fs (fs.commit edit).2)
    (fs : FileSystem) {c : Change} (htree : c.ofBookmarks = false) : P fs (fs.change c).2 := by
  by_cases hmove : ∃ source dest, c = .move source dest
  · obtain ⟨source, dest, rfl⟩ := hmove
    have hcopy : P fs (fs.copy source dest).2 :=
      hcommit fs _ fun _ _ h => Node.copyTo_isTree h
    rw [change]
    rcases move_cases fs source dest with ⟨result, heq, -⟩ | ⟨-, -, -, ⟨_, -, heq⟩ | ⟨-, heq⟩⟩
    · rw [heq]
      exact hrefl fs
    · rw [heq]
      exact hcopy
    · rw [heq]
      exact htrans _ _ _ hcopy (hcommit _ _ fun _ _ h => Node.unlink_isTree h)
  · obtain ⟨edit, hedit, heq⟩ :=
      change_eq_commit fs htree fun source dest h => hmove ⟨source, dest, h⟩
    rw [heq]
    exact hcommit fs edit hedit

/-- Everything that a change of the bookmarks can do. -/
theorem change_bookmarks_cases {fs : FileSystem} (hs : fs.bookmarks.Sorted) {c : Change}
    (hmarks : c.ofBookmarks = true) :
    (∃ words, fs.storage.refused? .save bookmarksKey = some words ∧
        fs.change c = (.error (.storage words), fs.refused)) ∨
      ∃ marks : Bookmarks, marks.Sorted ∧ fs.change c = (.ok (), fs.withBookmarks marks) := by
  cases c with
  | addBookmark name path =>
    exact (addBookmark_cases hs name path).imp_right fun h => ⟨_, hs.insert name path, h⟩
  | removeBookmark name =>
    exact (removeBookmark_cases hs name).imp_right fun h => ⟨_, hs.erase name, h⟩
  | _ => cases hmarks

end SimTerm.FileSystem

import SimTerm.Proofs.FileSystem.Calls
import SimTerm.Proofs.FileSystem.Flat
import SimTerm.Proofs.Node.Transfer

/-!
# Copying and moving

A copy puts at its destination what was below the source before the call, every node of it made new,
and touches no path outside the destination; source and destination may lie within one another
(`copy_renews_branch`).

A move between paths of which neither lies within the other copies first and then takes the source
away, and each step is stored by itself. The two branches are apart, so neither step reaches the
other's: whatever was stored in between holds all that is moved, at one place or the other
(`move_loses_nothing`).
-/

namespace SimTerm

/-- Every save under the key is taken. -/
def Storage.AcceptsSaves (s : Storage) (key : String) : Prop :=
  ∀ made, s.refusal .save key made = none

namespace FileSystem

/-! ## Copying -/

/-- Where the storage takes what is saved, a copy is the copy of the flat map. -/
theorem copy_realizes {fs : FileSystem} (hsave : fs.storage.refused? .save treeKey = none)
    (source dest : String) :
    Realizes fs (fs.copy source dest)
      (fs.root.flat.copy fs.now (Path.segments source) dest) :=
  commit_realizes hsave (Node.flat_copyTo fs.now (Path.segments source) dest fs.root)

/-- Where the storage takes what is saved, a copy is refused for the first of three reasons that
applies: no source, the root as destination, no directory to put the copy in. Otherwise the branch
at the destination is afterwards the branch that was at the source before, with the moment of the
call at every node, and nothing else has changed, however the two paths lie to one another. -/
theorem copy_renews_branch (fs : FileSystem)
    (hsave : fs.storage.refused? .save treeKey = none) (source dest : String) :
    let m := fs.root.flat
    let src := Path.segments source
    let dst := Path.segments dest
    (m src = none → fs.copy source dest = (.error (.file .noSuchSource), fs)) ∧
      (m src ≠ none → dst = [] →
        fs.copy source dest = (.error (.file (.invalidPath dest)), fs)) ∧
      (m src ≠ none → dst ≠ [] → m.isDirAt dst.dropLast = false →
        fs.copy source dest = (.error (.file .noSuchDestination), fs)) ∧
      (m src ≠ none → dst ≠ [] → m.isDirAt dst.dropLast = true →
        ∃ root, fs.copy source dest = (.ok (), fs.withTree root) ∧
          (∀ rest, root.flat (dst ++ rest) = (m (src ++ rest)).map (Record.renewed fs.now)) ∧
          ∀ p, ¬ dst <+: p → root.flat p = m p) := by
  intro m src dst
  -- each reason is a branch of the copy on paths, which says nothing of how the paths overlap
  have hcopy : Realizes fs (fs.copy source dest) (m.copy fs.now src dest) :=
    copy_realizes hsave source dest
  refine ⟨?_, ?_, ?_, ?_⟩
  · intro hsrc
    rw [PathMap.copy, hsrc] at hcopy
    exact hcopy
  · intro hsrc hdst
    rw [PathMap.copy_of_source hsrc, if_pos hdst] at hcopy
    exact hcopy
  · intro hsrc hdst hparent
    rw [PathMap.copy_of_source hsrc, if_neg hdst, hparent] at hcopy
    exact hcopy
  · intro hsrc hdst hparent
    rw [PathMap.copy_of_source hsrc, if_neg hdst, if_pos hparent] at hcopy
    obtain ⟨root, hflat, hanswer⟩ := hcopy
    refine ⟨root, hanswer, ?_, ?_⟩
    · intro rest
      rw [hflat, PathMap.graft_append]
    · intro p hp
      rw [hflat, PathMap.graft_of_not_prefix hp]

/-- A directory is copied into itself: the copy has what was there before, and not the copy. -/
theorem copy_renews_branch_into_itself :
    let fs : FileSystem :=
      { root := .dir [("a", .dir [("f", .file "x" ⟨1, 2⟩)] ⟨3, 4⟩)] ⟨0, 0⟩, bookmarks := []
        storage := {}, now := 5, options := {} }
    fs.storage.refused? .save treeKey = none ∧
      ∃ root, fs.copy "/a" "/a/b" = (.ok (), fs.withTree root) ∧
        root.flat ["a", "b"] = some (.dir ⟨5, 5⟩) ∧
        root.flat ["a", "b", "f"] = some (.file "x" ⟨5, 5⟩) ∧
        root.flat ["a", "b", "b"] = none ∧ root.flat ["a"] = some (.dir ⟨3, 4⟩) := by
  intro fs
  have hsource : Path.segments "/a" = ["a"] := by decide
  have hdest : Path.segments "/a/b" = ["a", "b"] := by decide
  have hcopy := (copy_renews_branch fs rfl "/a" "/a/b").2.2.2
  rw [hsource, hdest] at hcopy
  have hthere : fs.root.flat ["a"] = some (.dir ⟨3, 4⟩) := rfl
  obtain ⟨root, hanswer, hbelow, helsewhere⟩ :=
    hcopy (by rw [hthere]; exact Option.some_ne_none _) (List.cons_ne_nil _ _) rfl
  refine ⟨rfl, root, hanswer, hbelow [], hbelow ["f"], hbelow ["b"], ?_⟩
  rw [helsewhere ["a"] (by decide), hthere]

/-! ## Moving -/

/-- A move from a path to itself says whether there is something, and changes nothing. -/
theorem move_to_itself {fs : FileSystem} {source dest : String}
    (h : Path.segments source = Path.segments dest) :
    fs.move source dest =
      (if fs.root.flat (Path.segments source) = none then .error (.file .noSuchSource)
        else .ok (), fs) := by
  rw [move_of_same h]
  cases hn : fs.root.find? (Path.segments source) with
  | none =>
    rw [if_pos (Node.flat_eq_none_iff.2 hn)]
  | some n =>
    have hthere : fs.root.flat (Path.segments source) ≠ none := by
      rw [Node.flat_of_find? hn]
      exact Option.some_ne_none _
    rw [if_neg hthere]

section Apart

variable (fs : FileSystem) {source dest : String}
  (hsrc : ¬ Path.segments source <+: Path.segments dest)
  (hdst : ¬ Path.segments dest <+: Path.segments source)

include hsrc hdst in
/-- Everything that such a move can do: the copy is refused; it is made and the removal refused by
the storage; or both are made. -/
theorem move_apart_cases :
    ((fs.copy source dest).1 ≠ .ok () ∧ fs.move source dest = fs.copy source dest ∧
        (fs.copy source dest).2.storage.journal = fs.storage.journal) ∨
      ∃ copied after, fs.root.copyTo fs.now (Path.segments source) dest = .ok copied ∧
        copied.unlink source = .ok after ∧
        fs.copy source dest = (.ok (), fs.withTree copied) ∧
        ((∃ words, (fs.withTree copied).storage.refused? .save treeKey = some words ∧
            fs.move source dest = (.error (.storage words), (fs.withTree copied).refused)) ∨
          fs.move source dest = (.ok (), (fs.withTree copied).withTree after)) := by
  have hmove := move_of_apart fs hsrc hdst
  -- the copy is one commit and the removal, if it comes to it, another: six cases, of which the
  -- tree rules one out
  rcases commit_cases fs (Node.copyTo fs.now (Path.segments source) dest) with
    ⟨cause, -, heq⟩ | ⟨words, -, heq⟩ | ⟨copied, hcopied, heq⟩
  · left
    rw [← copy] at heq
    rw [hmove, heq]
    exact ⟨fun h => (nomatch h), rfl, rfl⟩
  · left
    rw [← copy] at heq
    rw [hmove, heq]
    exact ⟨fun h => (nomatch h), rfl, rfl⟩
  · right
    rw [← copy] at heq
    rw [heq] at hmove ⊢
    obtain ⟨after, hafter, -⟩ := Node.exists_unlink_of_copyTo hcopied hsrc hdst
    refine ⟨copied, after, hcopied, hafter, rfl, ?_⟩
    rcases commit_cases (fs.withTree copied) (Node.unlink source) with
      ⟨cause, herror, -⟩ | ⟨words, hrefused, hcommit⟩ | ⟨root, hroot, hcommit⟩
    · -- the removal finds the source in the copied tree, for nothing was copied over it
      cases hafter.symm.trans herror
    · exact Or.inl ⟨words, hrefused, hmove.trans hcommit⟩
    · obtain rfl : after = root := Except.ok.inj (hafter.symm.trans hroot)
      exact Or.inr (hmove.trans hcommit)

end Apart

/-- A move loses nothing. From a path to itself it changes nothing and says whether there is
something; between paths of which one lies within the other it is refused. Otherwise it succeeds
where a copy does, if the storage takes what is saved, and then the branch has left the source for
the destination with its kinds and contents while all else is as before. And whatever the storage
takes or refuses, each tree that was stored on the way has all of the branch at the source or at the
destination. -/
theorem move_loses_nothing (fs : FileSystem) (source dest : String) :
    let m := fs.root.flat
    let src := Path.segments source
    let dst := Path.segments dest
    (src = dst → fs.move source dest =
        (if m src = none then .error (.file .noSuchSource) else .ok (), fs)) ∧
      (src ≠ dst → src <+: dst ∨ dst <+: src →
        fs.move source dest = (.error (.file (.invalidPath dest)), fs)) ∧
      (¬ src <+: dst → ¬ dst <+: src → fs.storage.AcceptsSaves treeKey →
        (fs.move source dest).1 = (fs.copy source dest).1 ∧
          ((fs.move source dest).1 = .ok () →
            let after := (fs.move source dest).2.root
            m.HeldAt src after dst ∧ (∀ rest, after.flat (src ++ rest) = none) ∧
              ∀ p, ¬ src <+: p → ¬ dst <+: p → after.flat p = m p)) ∧
      ∃ written, (fs.move source dest).2.storage.journal = written ++ fs.storage.journal ∧
        ∀ entry ∈ written, ∃ tree : Node, entry = (treeKey, tree.encode) ∧
          (m.HeldAt src tree src ∨ m.HeldAt src tree dst) := by
  intro m src dst
  refine ⟨move_to_itself, move_of_within, ?_, ?_⟩
  · intro hsrc hdst haccepts
    rcases move_apart_cases fs hsrc hdst with
      ⟨hrefused, hmove, -⟩ | ⟨copied, after, hcopied, hafter, hcopy, ⟨words, hwords, -⟩ | hmove⟩
    · rw [hmove]
      exact ⟨rfl, fun hok => absurd hok hrefused⟩
    · -- the storage takes the second save too
      cases (haccepts _).symm.trans hwords
    · rw [hmove, hcopy]
      exact ⟨rfl, fun _ => ⟨Node.heldAt_dest_after_move hcopied hsrc hdst hafter,
        Node.flat_eq_none_after_move hcopied hsrc hdst hafter,
        fun p => Node.flat_apart_after_move hcopied hsrc hdst hafter⟩⟩
  · by_cases hsame : src = dst
    · rw [move_to_itself hsame]
      exact ⟨[], rfl, List.forall_mem_nil _⟩
    by_cases hwithin : src <+: dst ∨ dst <+: src
    · rw [move_of_within hsame hwithin]
      exact ⟨[], rfl, List.forall_mem_nil _⟩
    obtain ⟨hsrc, hdst⟩ := not_or.1 hwithin
    rcases move_apart_cases fs hsrc hdst with
      ⟨-, hmove, hjournal⟩ | ⟨copied, after, hcopied, hafter, -, hmove⟩
    · rw [hmove]
      exact ⟨[], hjournal, List.forall_mem_nil _⟩
    · -- the first text stored has the branch at both places, the second at the destination
      have hcopyHeld : m.HeldAt src copied dst := Node.heldAt_dest_of_copyTo hcopied
      have hafterHeld : m.HeldAt src after dst :=
        Node.heldAt_dest_after_move hcopied hsrc hdst hafter
      rcases hmove with ⟨words, -, hmove⟩ | hmove
      · rw [hmove]
        refine ⟨[(treeKey, copied.encode)], rfl, ?_⟩
        intro entry hentry
        exact ⟨copied, List.mem_singleton.1 hentry, Or.inr hcopyHeld⟩
      · rw [hmove]
        refine ⟨[(treeKey, after.encode), (treeKey, copied.encode)], rfl, ?_⟩
        intro entry hentry
        rcases List.mem_cons.1 hentry with hlast | hfirst
        · exact ⟨after, hlast, Or.inr hafterHeld⟩
        · exact ⟨copied, List.mem_singleton.1 hfirst, Or.inr hcopyHeld⟩

/-- A directory moves into another one, with its file. -/
theorem move_loses_nothing_between_directories :
    let fs : FileSystem :=
      { root := .dir [("a", .dir [("f", .file "x" ⟨1, 2⟩)] ⟨3, 4⟩), ("b", .dir [] ⟨6, 7⟩)] ⟨0, 0⟩
        bookmarks := [], storage := {}, now := 8, options := {} }
    let after := (fs.move "/a" "/b/c").2.root
    (fs.move "/a" "/b/c").1 = .ok () ∧
      (after.flat ["b", "c", "f"]).map Record.body = some (.file, some "x") ∧
      after.flat ["a", "f"] = none ∧ after.flat ["b"] = some (.dir ⟨6, 7⟩) := by
  intro fs after
  have hsource : Path.segments "/a" = ["a"] := by decide
  have hdest : Path.segments "/b/c" = ["b", "c"] := by decide
  have hmove := (move_loses_nothing fs "/a" "/b/c").2.2.1
  rw [hsource, hdest] at hmove
  obtain ⟨hanswer, hafter⟩ := hmove (by decide) (by decide) (fun _ => rfl)
  have hok : (fs.move "/a" "/b/c").1 = .ok () := hanswer
  obtain ⟨hheld, hgone, hkept⟩ := hafter hok
  refine ⟨hok, hheld ["f"], hgone ["f"], ?_⟩
  exact hkept ["b"] (by decide) (by decide)

end FileSystem

end SimTerm

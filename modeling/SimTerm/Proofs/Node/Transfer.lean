import SimTerm.Proofs.Node.Flat

/-!
# The two steps of a move

A branch that is moved is first copied and then taken away. Between paths that are apart the copy
leaves the source as it is (`flat_source_of_copyTo`), so it can be taken away afterwards
(`exists_unlink_of_copyTo`), and taking it away leaves the copy as it is (`heldAt_dest_after_move`).
-/

namespace SimTerm

/-- The tree has at and below `path` the kinds and contents that the map has at and below
`source`. -/
def PathMap.HeldAt (m : PathMap) (source : List String) (tree : Node) (path : List String) : Prop :=
  ∀ rest, (tree.flat (path ++ rest)).map Record.body = (m (source ++ rest)).map Record.body

namespace Node

/-- A copy that succeeded had a source, and has grafted its branch. -/
theorem flat_of_copyTo {now : Millis} {source : List String} {dest : String} {root copied : Node}
    (h : root.copyTo now source dest = .ok copied) :
    root.flat source ≠ none ∧
      copied.flat = root.flat.graft (Path.segments dest) fun rest =>
        (root.flat (source ++ rest)).map (Record.renewed now) := by
  obtain ⟨n, parent, name, hn, -, -⟩ := copyTo_eq_ok h
  have hsource : root.flat source ≠ none := by
    rw [flat_of_find? hn]
    exact Option.some_ne_none _
  refine ⟨hsource, ?_⟩
  have hflat := flat_copyTo now source dest root
  rw [h, PathMap.copy_of_source hsource] at hflat
  split at hflat
  · cases hflat
  · split at hflat
    · exact Except.ok.inj hflat
    · cases hflat

section Apart

variable {now : Millis} {source dest : String} {root copied : Node}
  (h : root.copyTo now (Path.segments source) dest = .ok copied)
  (hsrc : ¬ Path.segments source <+: Path.segments dest)
  (hdst : ¬ Path.segments dest <+: Path.segments source)

include h in
/-- After a copy the destination has what the source had, but for the stamps. -/
theorem heldAt_dest_of_copyTo : root.flat.HeldAt (Path.segments source) copied (Path.segments dest) := by
  intro rest
  rw [(flat_of_copyTo h).2, PathMap.graft_append, Option.map_map]
  congr 1
  funext r
  exact Record.body_renewed now r

include h hsrc hdst in
/-- A copy to somewhere else leaves the source as it is. -/
theorem flat_source_of_copyTo (rest : List String) :
    copied.flat (Path.segments source ++ rest) = root.flat (Path.segments source ++ rest) := by
  rw [(flat_of_copyTo h).2]
  exact PathMap.graft_of_not_prefix (PathMap.not_prefix_append hdst hsrc rest) _ _

include h hsrc hdst in
/-- After such a copy the source can be taken away, and its branch is all that goes. -/
theorem exists_unlink_of_copyTo :
    ∃ after, copied.unlink source = .ok after ∧
      after.flat = copied.flat.graft (Path.segments source) PathMap.nowhere := by
  have hne : Path.segments source ≠ [] := by
    intro hnil
    exact hsrc (hnil ▸ List.nil_prefix)
  have hstill : copied.flat (Path.segments source) = root.flat (Path.segments source) := by
    have hrest := flat_source_of_copyTo h hsrc hdst []
    rwa [List.append_nil] at hrest
  obtain ⟨n, hn⟩ : ∃ n, copied.find? (Path.segments source) = some n := by
    apply Option.ne_none_iff_exists'.1
    intro hnone
    rw [flat_eq_none_iff.2 hnone] at hstill
    exact (flat_of_copyTo h).1 hstill.symm
  obtain ⟨after, hafter, hflat⟩ := exists_of_map_eq_ok (flat_unlink hne hn)
  exact ⟨after, hafter, hflat⟩

variable {after : Node} (hafter : copied.unlink source = .ok after)

include h hsrc hdst hafter in
/-- After a move the branch of the source is gone, and nothing else is different from after the
copy. -/
theorem flat_after_move : after.flat = copied.flat.graft (Path.segments source) PathMap.nowhere := by
  obtain ⟨after', hafter', hflat⟩ := exists_unlink_of_copyTo h hsrc hdst
  obtain rfl : after = after' := Except.ok.inj (hafter.symm.trans hafter')
  exact hflat

include h hsrc hdst hafter in
/-- Taking the source away leaves the copy as it is. -/
theorem heldAt_dest_after_move : root.flat.HeldAt (Path.segments source) after (Path.segments dest) := by
  intro rest
  rw [flat_after_move h hsrc hdst hafter,
    PathMap.graft_of_not_prefix (PathMap.not_prefix_append hsrc hdst rest)]
  exact heldAt_dest_of_copyTo h rest

include h hsrc hdst hafter in
/-- After a move nothing is at the source or below it. -/
theorem flat_eq_none_after_move (rest : List String) : after.flat (Path.segments source ++ rest) = none := by
  rw [flat_after_move h hsrc hdst hafter, PathMap.graft_append]
  rfl

include h hsrc hdst hafter in
/-- A move leaves everything apart from both paths as it was. -/
theorem flat_apart_after_move {p : List String} (hp : ¬ Path.segments source <+: p)
    (hq : ¬ Path.segments dest <+: p) : after.flat p = root.flat p := by
  rw [flat_after_move h hsrc hdst hafter, PathMap.graft_of_not_prefix hp, (flat_of_copyTo h).2,
    PathMap.graft_of_not_prefix hq]

end Apart

end Node

end SimTerm

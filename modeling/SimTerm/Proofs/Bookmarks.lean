import SimTerm.Bookmarks
import SimTerm.Proofs.Entries.Order
import SimTerm.Proofs.Json.RoundTrip

/-!
# Stored bookmarks read back

A sorted table is read back from its stored text whatever its names and paths are: the text is one
object of strings, so it is never nested too deeply.
-/

namespace SimTerm.Bookmarks

theorem members_cons (name path : String) (marks : Bookmarks) :
    members ((name, path) :: marks) = (some name, .string (some path)) :: members marks :=
  rfl

/-- Every member that is written for a bookmark is read as that bookmark. -/
theorem mapM_ofMember?_members (marks : Bookmarks) : marks.members.mapM ofMember? = some marks := by
  induction marks with
  | nil => rfl
  | cons m marks ih =>
    rw [members_cons, List.mapM_cons, ih]
    rfl

/-- Nothing is nested in the stored table. -/
theorem membersDepth_members (marks : Bookmarks) : Json.membersDepth marks.members = 0 := by
  induction marks with
  | nil => rw [members, List.map_nil, Json.membersDepth]
  | cons m marks ih =>
    obtain ⟨name, path⟩ := m
    simp [members_cons, Json.membersDepth, Json.depth, ih]

theorem membersLegible_members (marks : Bookmarks) : Json.membersLegible marks.members := by
  induction marks with
  | nil => rw [members, List.map_nil, Json.membersLegible]
  | cons m marks ih =>
    obtain ⟨name, path⟩ := m
    simp [members_cons, Json.membersLegible, Json.legible, ih]

/-- A stored table is always within what a reader admits. -/
theorem admitted_members (marks : Bookmarks) : (Json.object marks.members).admitted := by
  rw [Json.admitted, Json.depth, Json.legible, membersDepth_members, membersLegible_members]
  rfl

/-- A sorted table is read back from its stored text. -/
theorem decode?_encode {marks : Bookmarks} (h : marks.Sorted) :
    decode? marks.encode = some marks := by
  have hread : Json.readStored? marks.encode = some (.object marks.members) := by
    rw [encode, Json.readStored?_compact, if_pos (admitted_members marks)]
  rw [decode?, hread]
  simp only [mapM_ofMember?_members, Option.map_some, Entries.ofList_of_sorted h]

end SimTerm.Bookmarks

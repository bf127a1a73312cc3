import SimTerm.Proofs.Path.Resolution

/-!
# One input after another, and the home directory

A walk along some steps and then along more is one walk along all of them. In between the place that
was reached is written as a path and cut into its names again, which changes no name. So an input
that is walked may be typed in parts, one after the other: `resolve_append`.

The sign for the home directory stands for a text that has the name of the user in it, and this text
is cut into segments like any other. It is the path of one entry of `/home` only if the user's name
can be a segment.
-/

namespace SimTerm.Path

variable {bookmarks : Entries String}

/-! ## One input after another -/

/-- The input is plainly relative and not empty, so it is walked. -/
structure IsWalked (bookmarks : Entries String) (input : String) : Prop
    extends PlainlyRelative bookmarks input where
  ne_empty : input ≠ ""

/-- An input that names no mark and no place of its own is walked from the working directory. -/
theorem IsWalked.resolve_eq {input : String} (h : IsWalked bookmarks input) (user cwd : String) :
    resolve bookmarks user cwd input = ofSegments (walk (segments cwd) (segments input)) :=
  h.toPlainlyRelative.resolve_eq h.ne_empty user cwd

/-- Steps can be walked in two parts. -/
theorem walk_append (here steps more : List String) :
    walk here (steps ++ more) = walk (walk here steps) more :=
  List.foldl_append

/-- Names are found again after a walk between paths. -/
theorem segments_ofSegments_walk (cwd input : String) :
    segments (ofSegments (walk (segments cwd) (segments input))) =
      walk (segments cwd) (segments input) := by
  apply segments_ofSegments
  intro name hname
  rcases mem_walk hname with hhere | hstep
  · exact isName_of_mem_segmentsOf hhere
  · exact isName_of_mem_segmentsOf hstep

/-- Two inputs that are walked one after the other lead where both lead when they are joined. -/
theorem resolve_append {a b : String} (ha : IsWalked bookmarks a) (hb : IsWalked bookmarks b)
    (hab : IsWalked bookmarks (a ++ "/" ++ b)) (user cwd : String) :
    resolve bookmarks user cwd (a ++ "/" ++ b) =
      resolve bookmarks user (resolve bookmarks user cwd a) b := by
  have hfirst := ha.resolve_eq user cwd
  calc resolve bookmarks user cwd (a ++ "/" ++ b)
    _ = ofSegments (walk (segments cwd) (segments (a ++ "/" ++ b))) := hab.resolve_eq user cwd
    _ = ofSegments (walk (walk (segments cwd) (segments a)) (segments b)) := by
      rw [segments_append, walk_append]
    _ = ofSegments (walk (segments (resolve bookmarks user cwd a)) (segments b)) := by
      rw [hfirst, segments_ofSegments_walk]
    _ = resolve bookmarks user (resolve bookmarks user cwd a) b := (hb.resolve_eq user _).symm

/-! ## The home directory -/

/-- The home of a user lies below the homes, as deep as the name has segments. -/
theorem segments_home (user : String) : segments (home user) = "home" :: segments user := by
  have hhomes : segments "/home" = ["home"] := by decide
  have hhome : home user = "/home" ++ "/" ++ user := rfl
  rw [hhome, segments_append, hhomes, List.singleton_append]

/-- The sign alone means the path that is written from the segments of the home directory. -/
theorem resolve_home (bookmarks : Entries String) (user cwd : String) :
    resolve bookmarks user cwd "~" = ofSegments ("home" :: segments user) := by
  obtain ⟨rest, hrest⟩ : ∃ rest, (home user).toList = '/' :: rest :=
    ⟨_, String.toList_append⟩
  have hsegments : segmentsOf rest = "home" :: segments user := by
    rw [← segmentsOf_slash_cons, ← hrest]
    exact segments_home user
  have hsign : expandHome user (expandRoot "~".toList) = '/' :: rest := hrest
  unfold resolve
  rw [if_neg (by decide), hsign]
  show ofSegments (segmentsOf rest) = _
  rw [hsegments]

/-- A tilde means the home of the user. -/
theorem segments_resolve_home (bookmarks : Entries String) (user cwd : String) :
    segments (resolve bookmarks user cwd "~") = "home" :: segments user := by
  rw [resolve_home]
  apply segments_ofSegments
  exact List.forall_mem_cons.2 ⟨⟨by decide, by decide⟩, fun _ => isName_of_mem_segmentsOf⟩

/-- A name is what the home directory of its user is called. -/
theorem ofSegments_home {user : String} (h : IsName user) :
    ofSegments ("home" :: segments user) = home user := by
  rw [segments_of_isName h]
  apply String.toList_injective
  rw [home, String.toList_append, ofSegments, String.toList_ofList, List.map_cons,
    List.map_singleton, Text.joined_cons_cons, Text.joined_singleton]
  rfl

/-- The directory of all homes is no home, not even of a user without a name: a slash is missing. -/
theorem homes_ne_home (user : String) : "/home" ≠ home user := by
  intro heq
  have hlength : "/home".length = "/home/".length + user.length := by
    rw [← String.length_append]
    exact congrArg String.length heq
  have hshort : "/home".length = 5 := rfl
  have hlong : "/home/".length = 6 := rfl
  omega

end SimTerm.Path

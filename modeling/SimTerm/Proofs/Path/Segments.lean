import SimTerm.Proofs.Path.Resolution

/-!
# Canonical paths stand for lists of names

Writing a path from names and cutting a path into its segments are inverse to each other, on one
side for all lists of names and on the other for the canonical paths. On all other paths cutting
forgets the slashes that name nothing: those in a row, at the end, or missing at the start. So the
operations on paths are operations on lists of names: an entry of a directory is one more name at
the end, going on with a path is an append, and the leaf is the last name.
-/

namespace SimTerm.Path

/-- The segments of every path are names. -/
theorem isName_of_mem_segments {path name : String} (h : name ∈ segments path) : IsName name :=
  isName_of_mem_segmentsOf h

/-- A path that is written anew from its segments is the path itself only if it was canonical
before. -/
theorem ofSegments_segments_eq_iff (path : String) :
    ofSegments (segments path) = path ↔ IsCanonical path := by
  constructor
  · intro heq
    rw [← heq]
    exact ofSegments_canonical fun name hname => isName_of_mem_segments hname
  · exact ofSegments_segments

/-- The leaf is the last segment, and nothing where there is none. -/
theorem leaf_cases (path : String) :
    (segments path = [] ∧ leaf path = "") ∨ ∃ front, segments path = front ++ [leaf path] := by
  rcases List.eq_nil_or_concat (segments path) with hnone | ⟨front, last, hlast⟩
  · refine .inl ⟨hnone, ?_⟩
    rw [leaf, hnone]
    rfl
  · rw [List.concat_eq_append] at hlast
    have hleaf : leaf path = last := by
      rw [leaf, hlast, List.getLast?_concat, Option.getD_some]
    exact .inr ⟨front, hleaf ▸ hlast⟩

/-- Paths correspond to lists of names. Names are found again in the path that is written from
them. The segments of any path at all are names; written anew from them the path becomes canonical,
and only a canonical path stays as it is. The path of an entry is written from one more name, the
leaf of a path is its last segment if there is one and nothing otherwise, and two paths with a slash
between them have the segments of both. -/
theorem paths_correspond_to_names :
    (∀ names, (∀ name ∈ names, IsName name) → segments (ofSegments names) = names) ∧
      (∀ path, (∀ name ∈ segments path, IsName name) ∧
        IsCanonical (ofSegments (segments path)) ∧
        (ofSegments (segments path) = path ↔ IsCanonical path)) ∧
      (∀ names, (∀ name ∈ names, IsName name) →
        ∀ name, child (ofSegments names) name = ofSegments (names ++ [name])) ∧
      (∀ path, (segments path = [] ∧ leaf path = "") ∨
        ∃ front, segments path = front ++ [leaf path]) ∧
      ∀ path rest, segments (path ++ "/" ++ rest) = segments path ++ segments rest := by
  refine ⟨fun names hnames => segments_ofSegments hnames, fun path => ?_,
    fun names hnames name => child_ofSegments hnames name, leaf_cases, segments_append⟩
  have hnames : ∀ name ∈ segments path, IsName name := fun name hname =>
    isName_of_mem_segments hname
  exact ⟨hnames, ofSegments_canonical hnames, ofSegments_segments_eq_iff path⟩

/-- Slashes in a row and at both ends, next to names of dots and blanks. -/
theorem paths_correspond_to_names_slashes :
    let names := ["..", "a b"]
    (∀ name ∈ names, IsName name) ∧ segments (ofSegments names) = names ∧
      segments "//..///a b//" = names ∧ ¬ IsCanonical "//..///a b//" ∧
      ofSegments (segments "//..///a b//") ≠ "//..///a b//" ∧
      IsCanonical (ofSegments (segments "//..///a b//")) ∧
      child (ofSegments names) "~" = "/../a b/~" ∧ leaf "//..///a b//" = "a b" ∧
      segments ("//../" ++ "/" ++ "/a b//") = segments "//../" ++ segments "/a b//" := by
  intro names
  have hnames : ∀ name ∈ names, IsName name :=
    List.forall_mem_cons.2 ⟨⟨by decide, by decide⟩,
      List.forall_mem_singleton.2 ⟨by decide, by decide⟩⟩
  have hsegments : segments "//..///a b//" = names := by decide
  have hdouble : ¬ IsCanonical "//..///a b//" := by decide
  obtain ⟨hfound, hwritten, hchild, hleaf, happend⟩ := paths_correspond_to_names
  obtain ⟨-, hcanonical, hsame⟩ := hwritten "//..///a b//"
  have hlast : leaf "//..///a b//" = "a b" := by
    rcases hleaf "//..///a b//" with ⟨hnone, -⟩ | ⟨front, hfront⟩
    · exact absurd (hsegments.symm.trans hnone) (List.cons_ne_nil _ _)
    · have htail := congrArg List.getLast? (hfront.symm.trans hsegments)
      rw [List.getLast?_concat] at htail
      exact Option.some.inj htail
  exact ⟨hnames, hfound names hnames, hsegments, hdouble, fun heq => hdouble (hsame.1 heq),
    hcanonical, (hchild names hnames "~").trans (by decide), hlast, happend "//../" "/a b//"⟩

end SimTerm.Path

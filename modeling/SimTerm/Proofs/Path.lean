import SimTerm.Path

/-!
# Paths and their segments

What is joined by separators is cut into the same pieces again, so a path that was written from
names has those names as its segments: `segments_ofSegments`. Whatever a path looks like, what it is
cut into are names, neither empty nor with a slash in them.
-/

namespace SimTerm

namespace Text

/-- A text without the separator is one piece. -/
theorem pieces_of_not_mem {sep : Char} {p : List Char} (h : sep ∉ p) : pieces sep p = [p] := by
  induction p with
  | nil => rfl
  | cons c p ih =>
    have hc : c ≠ sep := fun heq => h (heq ▸ List.mem_cons_self)
    rw [pieces, if_neg hc, ih fun hp => h (List.mem_cons_of_mem c hp), consFirst]

/-- At a separator a text may be cut into its two sides first. -/
theorem pieces_append_cons (sep : Char) (as bs : List Char) :
    pieces sep (as ++ sep :: bs) = pieces sep as ++ pieces sep bs := by
  induction as with
  | nil =>
    show pieces sep (sep :: bs) = [] :: pieces sep bs
    rw [pieces, if_pos rfl]
  | cons a as ih =>
    rw [List.cons_append, pieces, pieces, ih]
    split
    · rw [List.cons_append]
    · obtain ⟨p, ps, hps⟩ := List.exists_cons_of_ne_nil (pieces_ne_nil sep as)
      rw [hps, List.cons_append, consFirst, consFirst, List.cons_append]

/-- The first separator ends the first piece. -/
theorem pieces_append_sep {sep : Char} {p : List Char} (h : sep ∉ p) (cs : List Char) :
    pieces sep (p ++ sep :: cs) = p :: pieces sep cs := by
  rw [pieces_append_cons, pieces_of_not_mem h, List.cons_append, List.nil_append]

/-- No piece holds the separator. -/
theorem not_mem_of_mem_pieces {sep : Char} {cs p : List Char} (h : p ∈ pieces sep cs) :
    sep ∉ p := by
  induction cs generalizing p with
  | nil =>
    obtain rfl : p = [] := List.mem_singleton.1 h
    exact List.not_mem_nil
  | cons c cs ih =>
    obtain ⟨q, qs, hqs⟩ := List.exists_cons_of_ne_nil (pieces_ne_nil sep cs)
    rw [hqs] at ih
    rw [pieces, hqs] at h
    split at h
    · rcases List.mem_cons.1 h with rfl | hp
      · exact List.not_mem_nil
      · exact ih hp
    · next hc =>
      rcases List.mem_cons.1 h with rfl | hp
      · rw [List.mem_cons]
        rintro (rfl | hq)
        · exact hc rfl
        · exact ih List.mem_cons_self hq
      · exact ih (List.mem_cons_of_mem q hp)

/-- Pieces without a separator in them are found again. -/
theorem pieces_joined {sep : Char} {ps : List (List Char)} (hne : ps ≠ [])
    (h : ∀ p ∈ ps, sep ∉ p) : pieces sep (joined sep ps) = ps := by
  induction ps with
  | nil => exact absurd rfl hne
  | cons p ps ih =>
    have hp : sep ∉ p := h p List.mem_cons_self
    cases ps with
    | nil =>
      have hjoined : joined sep [p] = p := by simp [joined]
      rw [hjoined, pieces_of_not_mem hp]
    | cons q qs =>
      rw [joined_cons_cons, pieces_append_sep hp,
        ih (List.cons_ne_nil q qs) fun r hr => h r (List.mem_cons_of_mem p hr)]

theorem joined_singleton (sep : Char) (p : List Char) : joined sep [p] = p := by
  simp [joined]

/-- One more piece at the end. -/
theorem joined_concat {sep : Char} {ps : List (List Char)} (hne : ps ≠ []) (q : List Char) :
    joined sep (ps ++ [q]) = joined sep ps ++ sep :: q := by
  induction ps with
  | nil => exact absurd rfl hne
  | cons p ps ih =>
    cases ps with
    | nil => rw [List.singleton_append, joined_cons_cons, joined_singleton, joined_singleton]
    | cons r rs =>
      rw [List.cons_append, List.cons_append, joined_cons_cons, joined_cons_cons,
        ← List.cons_append, ih (List.cons_ne_nil r rs), List.append_assoc, List.cons_append]

end Text

namespace Path

/-- A name that can be a segment. -/
structure IsName (name : String) : Prop where
  ne_nil : name.toList ≠ []
  no_slash : '/' ∉ name.toList

/-- A path that was written from names has them as its segments. -/
theorem segments_ofSegments {segs : List String} (h : ∀ s ∈ segs, IsName s) :
    segments (ofSegments segs) = segs := by
  rw [segments, ofSegments, String.toList_ofList, segmentsOf]
  cases segs with
  | nil => rfl
  | cons s ss =>
    -- the slash in front makes one empty piece, and the names have no slash and are not empty
    have hpieces : Text.pieces '/' ('/' :: Text.joined '/' ((s :: ss).map String.toList)) =
        [] :: (s :: ss).map String.toList := by
      rw [Text.pieces, if_pos rfl, Text.pieces_joined (by simp)]
      intro p hp
      obtain ⟨name, hname, rfl⟩ := List.mem_map.1 hp
      exact (h name hname).no_slash
    have hkept : ((s :: ss).map String.toList).filter (· ≠ []) = (s :: ss).map String.toList := by
      rw [List.filter_eq_self]
      intro p hp
      obtain ⟨name, hname, rfl⟩ := List.mem_map.1 hp
      exact decide_eq_true (h name hname).ne_nil
    rw [hpieces, List.filter_cons_of_neg (by simp), hkept, List.map_map]
    exact List.map_id'' (fun name => String.ofList_toList) _

/-- The path of an entry is written from one more name. -/
theorem child_ofSegments {here : List String} (h : ∀ s ∈ here, IsName s) (name : String) :
    child (ofSegments here) name = ofSegments (here ++ [name]) := by
  -- the root alone is written with a slash at its end, so it is a case of its own
  apply String.toList_injective
  have hwritten : (ofSegments (here ++ [name])).toList =
      '/' :: Text.joined '/' (here.map String.toList ++ [name.toList]) := by
    rw [ofSegments, String.toList_ofList, List.map_append, List.map_singleton]
  rw [hwritten]
  cases here with
  | nil =>
    have hroot : ofSegments [] = "/" := rfl
    rw [child, if_pos hroot, String.toList_append, List.map_nil, List.nil_append,
      Text.joined_singleton]
    rfl
  | cons s ss =>
    have hnotRoot : ofSegments (s :: ss) ≠ "/" := by
      intro hroot
      have hsegments := segments_ofSegments h
      rw [hroot] at hsegments
      cases hsegments
    have hhere : (ofSegments (s :: ss)).toList =
        '/' :: Text.joined '/' ((s :: ss).map String.toList) := String.toList_ofList
    rw [child, if_neg hnotRoot, String.toList_append, String.toList_append, hhere,
      Text.joined_concat (by simp), List.append_assoc]
    rfl

/-- A path that goes on from another one has the segments of both. -/
theorem segments_append (path rest : String) :
    segments (path ++ "/" ++ rest) = segments path ++ segments rest := by
  have htext : (path ++ "/" ++ rest).toList = path.toList ++ '/' :: rest.toList := by
    rw [String.toList_append, String.toList_append, List.append_assoc]
    rfl
  rw [segments, htext, segmentsOf, Text.pieces_append_cons, List.filter_append, List.map_append]
  rfl

/-- A name is its own only segment. -/
theorem segments_of_isName {name : String} (h : IsName name) : segments name = [name] := by
  have hkept : [name.toList].filter (· ≠ []) = [name.toList] :=
    List.filter_cons_of_pos (decide_eq_true h.ne_nil)
  rw [segments, segmentsOf, Text.pieces_of_not_mem h.no_slash, hkept, List.map_singleton,
    String.ofList_toList]

/-- Segments can be segments. -/
theorem isName_of_mem_segmentsOf {text : List Char} {name : String} (h : name ∈ segmentsOf text) :
    IsName name := by
  obtain ⟨p, hp, rfl⟩ := List.mem_map.1 h
  obtain ⟨hpiece, hne⟩ := List.mem_filter.1 hp
  refine ⟨?_, ?_⟩
  · rw [String.toList_ofList]
    exact of_decide_eq_true hne
  · rw [String.toList_ofList]
    exact Text.not_mem_of_mem_pieces hpiece

/-- A walk visits no names but those it starts from and those of its steps. -/
theorem mem_walk {here steps : List String} {segment : String} (h : segment ∈ walk here steps) :
    segment ∈ here ∨ segment ∈ steps := by
  induction steps generalizing here with
  | nil => exact Or.inl h
  | cons first steps ih =>
    rcases ih h with hstep | hrest
    · unfold step at hstep
      split at hstep
      · exact Or.inl hstep
      · split at hstep
        · exact Or.inl (List.dropLast_subset here hstep)
        · rcases List.mem_append.1 hstep with hhere | hfirst
          · exact Or.inl hhere
          · obtain rfl : segment = first := List.mem_singleton.1 hfirst
            exact Or.inr List.mem_cons_self
    · exact Or.inr (List.mem_cons_of_mem first hrest)

end Path

end SimTerm

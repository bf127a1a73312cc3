import SimTerm.Proofs.Path.Canonical

/-!
# What an input means, and what that means

A canonical path is the one that is written from its segments (`ofSegments_segments`). It starts with
a slash, so as an input it means itself, whoever types it and wherever. A walk keeps none of the dots
among its steps, and at the root it goes up nowhere. Together: `resolve_settled`.
-/

namespace SimTerm

namespace Text

theorem tail_consFirst (c : Char) {ps : List (List Char)} (h : ps ≠ []) :
    (consFirst c ps).tail = ps.tail := by
  obtain ⟨p, ps, rfl⟩ := List.exists_cons_of_ne_nil h
  rfl

/-- The first piece of a text that does not start with the separator is not empty. -/
theorem forall_mem_pieces_ne_nil {sep c : Char} {cs : List Char} (hc : c ≠ sep)
    (h : ∀ p ∈ (pieces sep (c :: cs)).tail, p ≠ []) : ∀ p ∈ pieces sep (c :: cs), p ≠ [] := by
  obtain ⟨first, ps, hps⟩ := List.exists_cons_of_ne_nil (pieces_ne_nil sep cs)
  rw [pieces, if_neg hc, hps, consFirst] at h ⊢
  exact List.forall_mem_cons.2 ⟨List.cons_ne_nil c first, h⟩

end Text

namespace Path

open Text

/-! ## Canonical paths and their segments -/

/-- A slash in front adds no segment. -/
theorem segmentsOf_slash_cons (cs : List Char) : segmentsOf ('/' :: cs) = segmentsOf cs := by
  rw [segmentsOf, segmentsOf, pieces, if_pos rfl, List.filter_cons_of_neg (by simp)]

/-- What is written from names without a slash in front has them as its segments, too. -/
theorem segments_join {names : List String} (h : ∀ name ∈ names, IsName name) :
    segments (join '/' names) = names := by
  have hslash : (ofSegments names).toList = '/' :: (join '/' names).toList := by
    rw [ofSegments, join, String.toList_ofList, String.toList_ofList]
  rw [segments, ← segmentsOf_slash_cons, ← hslash]
  exact segments_ofSegments h

/-- Where no slash stands behind another or at the end, no piece but the first can be empty. -/
theorem forall_mem_tail_pieces_ne_nil {cs : List Char} (hchain : cs.IsChain SlashesApart)
    (hlast : cs.getLast? ≠ some '/') : ∀ p ∈ (pieces '/' cs).tail, p ≠ [] := by
  induction cs with
  | nil => exact List.forall_mem_nil _
  | cons c cs ih =>
    obtain ⟨hapart, hrest⟩ := List.isChain_cons.1 hchain
    cases cs with
    | nil =>
      have hc : c ≠ '/' := fun heq => hlast (heq ▸ rfl)
      rw [pieces, if_neg hc]
      exact List.forall_mem_nil _
    | cons d ds =>
      rw [List.getLast?_cons_cons] at hlast
      rw [pieces]
      split
      · next hc =>
        -- the piece behind a slash does not start with another
        have hd : d ≠ '/' := fun heq => hapart d rfl ⟨hc, heq⟩
        exact forall_mem_pieces_ne_nil hd (ih hrest hlast)
      · rw [tail_consFirst c (pieces_ne_nil '/' _)]
        exact ih hrest hlast

/-- A canonical path is written from its segments. -/
theorem ofSegments_segments {path : String} (h : IsCanonical path) :
    ofSegments (segments path) = path := by
  obtain ⟨rest, hpath⟩ : ∃ rest, path.toList = '/' :: rest := List.head?_eq_some_iff.1 h.rooted
  apply String.toList_injective
  cases rest with
  | nil =>
    obtain rfl : path = "/" := String.toList_injective hpath
    rfl
  | cons c cs =>
    have hchain := h.noEmptySegment
    have hlast := h.noSlashAtEnd.resolve_left fun hroot => by simp [hroot] at hpath
    rw [hpath, List.getLast?_cons_cons] at hlast
    rw [hpath] at hchain
    obtain ⟨hapart, hbehind⟩ := List.isChain_cons.1 hchain
    have hc : c ≠ '/' := fun heq => hapart c rfl ⟨rfl, heq⟩
    have hkept : (pieces '/' (c :: cs)).filter (· ≠ []) = pieces '/' (c :: cs) :=
      List.filter_eq_self.2 fun p hp => decide_eq_true
        (forall_mem_pieces_ne_nil hc (forall_mem_tail_pieces_ne_nil hbehind hlast) p hp)
    have hsegments : (segments path).map String.toList = pieces '/' (c :: cs) := by
      rw [segments, hpath, segmentsOf_slash_cons, segmentsOf, hkept, List.map_map]
      exact List.map_id'' (fun p => String.toList_ofList) _
    rw [ofSegments, String.toList_ofList, hsegments, joined_pieces, hpath]

/-! ## Walks -/

/-- One of the two names that a walk takes as a step of its own. -/
def IsDots (name : String) : Prop :=
  name = "." ∨ name = ".."

/-- Dots are taken as steps and not kept. -/
theorem not_isDots_of_mem_walk {here steps : List String} (h : ∀ name ∈ here, ¬ IsDots name) :
    ∀ name ∈ walk here steps, ¬ IsDots name := by
  induction steps generalizing here with
  | nil => exact h
  | cons segment steps ih =>
    refine ih fun name hname => ?_
    unfold step at hname
    split at hname
    · exact h name hname
    · next hone =>
      split at hname
      · exact h name (List.dropLast_subset here hname)
      · next htwo =>
        rcases List.mem_append.1 hname with hhere | hnew
        · exact h name hhere
        · obtain rfl : name = segment := List.mem_singleton.1 hnew
          exact not_or.2 ⟨hone, htwo⟩

/-- Going up takes the last names away, as far as there are any. -/
theorem walk_up (here : List String) (n : Nat) :
    walk here (List.replicate n "..") = here.take (here.length - n) := by
  induction n generalizing here with
  | zero => exact (List.take_length).symm
  | succ n ih =>
    have hup : step here ".." = here.dropLast := by
      rw [step, if_neg (by decide), if_pos rfl]
    rw [List.replicate_succ, walk, List.foldl_cons, ← walk, hup, ih, List.dropLast_eq_take,
      List.take_take, List.length_take]
    congr 1
    omega

/-! ## Inputs -/

/-- The input is walked from the working directory, if it is not empty: it names no bookmark, and
does not start at the root or at a home directory. -/
structure PlainlyRelative (bookmarks : Entries String) (input : String) : Prop where
  noMark : ∀ mark ∈ bookmarks, input ≠ "@" ++ mark.1
  notAbsolute : ¬ ['/'] <+: input.toList
  notHome : input ≠ "~" ∧ ¬ ['~', '/'] <+: input.toList
  notRoot : input ≠ "#" ∧ ¬ ['#', '/'] <+: input.toList

variable {bookmarks : Entries String} {cwd input : String}

/-- Without a mark for the root in front nothing is expanded. -/
theorem expandRoot_of_not {text : List Char} (hone : text ≠ ['#']) (hslash : ¬ ['#', '/'] <+: text) :
    expandRoot text = text := by
  unfold expandRoot
  split
  · exact absurd rfl hone
  · exact absurd (List.prefix_append ['#', '/'] _) hslash
  · rfl

/-- Without a tilde for the home in front nothing is expanded. -/
theorem expandHome_of_not {text : List Char} (hone : text ≠ ['~']) (hslash : ¬ ['~', '/'] <+: text)
    (user : String) : expandHome user text = text := by
  unfold expandHome
  split
  · exact absurd rfl hone
  · exact absurd (List.prefix_append ['~', '/'] _) hslash
  · rfl

/-- An input that names no bookmark has no target. -/
theorem bookmarkTarget?_eq_none (h : ∀ mark ∈ bookmarks, input ≠ "@" ++ mark.1) :
    bookmarkTarget? bookmarks input = none := by
  unfold bookmarkTarget?
  split
  · next name hinput =>
    refine Option.eq_none_iff_forall_ne_some.2 fun target htarget => ?_
    refine h _ (Entries.mem_of_get? htarget) (String.toList_injective ?_)
    rw [hinput, String.toList_append]
    exact congrArg ('@' :: ·) String.toList_ofList.symm
  · rfl

/-- What is plainly relative is walked from the working directory. -/
theorem PlainlyRelative.resolve_eq (h : PlainlyRelative bookmarks input) (hne : input ≠ "")
    (user cwd : String) :
    resolve bookmarks user cwd input = ofSegments (walk (segments cwd) (segments input)) := by
  have hroot : expandRoot input.toList = input.toList :=
    expandRoot_of_not (fun heq => h.notRoot.1 (String.toList_injective heq)) h.notRoot.2
  have hhome : expandHome user input.toList = input.toList :=
    expandHome_of_not (fun heq => h.notHome.1 (String.toList_injective heq)) h.notHome.2 user
  unfold resolve
  rw [if_neg hne, bookmarkTarget?_eq_none h.noMark, hroot, hhome]
  dsimp only
  split
  · next rest hrest => exact absurd (hrest ▸ List.prefix_append ['/'] rest) h.notAbsolute
  · rfl

/-- A canonical path means itself. -/
theorem IsCanonical.resolve_eq {path : String} (h : IsCanonical path) (bookmarks : Entries String)
    (user cwd : String) : resolve bookmarks user cwd path = path := by
  obtain ⟨rest, hpath⟩ : ∃ rest, path.toList = '/' :: rest := List.head?_eq_some_iff.1 h.rooted
  have hne : path ≠ "" := fun hempty => by simp [hempty] at hpath
  have hmark : bookmarkTarget? bookmarks path = none := by
    rw [bookmarkTarget?, hpath]
    rfl
  have hsegments : segmentsOf rest = segments path := by
    rw [segments, hpath, segmentsOf_slash_cons]
  unfold resolve
  rw [if_neg hne, hmark, hpath]
  show ofSegments (segmentsOf rest) = path
  rw [hsegments, ofSegments_segments h]

/-- An input that starts with a dot is plainly relative. -/
theorem plainlyRelative_of_dot {rest : List Char} (h : input.toList = '.' :: rest)
    (bookmarks : Entries String) : PlainlyRelative bookmarks input where
  noMark mark _ heq := by simp [heq] at h
  notAbsolute := by simp [h]
  notHome := ⟨fun heq => by simp [heq] at h, by simp [h]⟩
  notRoot := ⟨fun heq => by simp [heq] at h, by simp [h]⟩

/-- Going up `n` times takes the last `n` names away, as far as there are any. -/
theorem resolve_up (hcwd : IsCanonical cwd) (bookmarks : Entries String) (user : String) (n : Nat) :
    resolve bookmarks user cwd (join '/' (List.replicate n "..")) =
      ofSegments ((segments cwd).take ((segments cwd).length - n)) := by
  cases n with
  | zero =>
    rw [Nat.sub_zero, List.take_length, ofSegments_segments hcwd]
    rfl
  | succ n =>
    have hnames : ∀ name ∈ List.replicate (n + 1) "..", IsName name := fun name hname =>
      List.eq_of_mem_replicate hname ▸ ⟨by decide, by decide⟩
    obtain ⟨rest, hdot⟩ : ∃ rest, (join '/' (List.replicate (n + 1) "..")).toList = '.' :: rest := by
      rw [join, String.toList_ofList]
      cases n with
      | zero => exact ⟨['.'], rfl⟩
      | succ n => exact ⟨_, joined_cons_cons '/' _ _ _⟩
    have hne : join '/' (List.replicate (n + 1) "..") ≠ "" := fun hempty => by simp [hempty] at hdot
    rw [(plainlyRelative_of_dot hdot bookmarks).resolve_eq hne, segments_join hnames, walk_up]

/-- Whatever is typed where the working directory and all bookmarks are canonical, it means a
canonical path, and this path means itself, whoever types it, wherever, and with whatever bookmarks.
What is walked from a working directory without dots among its names comes to a path without them.
Going up any number of times ends at the root at the latest. -/
theorem resolve_settled (hmarks : ∀ mark ∈ bookmarks, IsCanonical mark.2) (hcwd : IsCanonical cwd)
    (user input : String) :
    let path := resolve bookmarks user cwd input
    IsCanonical path ∧
      (∀ marks user' cwd', resolve marks user' cwd' path = path) ∧
      (PlainlyRelative bookmarks input → (∀ name ∈ segments cwd, ¬ IsDots name) →
        ∀ name ∈ segments path, ¬ IsDots name) ∧
      ∀ n, resolve bookmarks user cwd (join '/' (List.replicate n "..")) =
        ofSegments ((segments cwd).take ((segments cwd).length - n)) := by
  intro path
  have hpath : IsCanonical path := resolve_canonical hmarks hcwd user input
  refine ⟨hpath, fun marks user' cwd' => hpath.resolve_eq marks user' cwd', fun hrelative hdots => ?_,
    fun n => ?_⟩
  · by_cases hempty : input = ""
    · have hhere : path = cwd := if_pos hempty
      rw [hhere]
      exact hdots
    · have hwalk : path = ofSegments (walk (segments cwd) (segments input)) :=
        hrelative.resolve_eq hempty user cwd
      rw [hwalk, segments_ofSegments]
      · exact not_isDots_of_mem_walk hdots
      · intro name hname
        exact (mem_walk hname).elim isName_of_mem_segmentsOf isName_of_mem_segmentsOf
  · exact resolve_up hcwd bookmarks user n

/-- A name that is no bookmark is a segment like any other, also with a sign in front and slashes in
the user's name. -/
theorem resolve_settled_no_mark :
    let marks : Entries String := [("a", "/~/#")]
    let path := resolve marks "../b" "/x/y" "@b/.././../z//"
    (∀ mark ∈ marks, IsCanonical mark.2) ∧ IsCanonical "/x/y" ∧
      PlainlyRelative marks "@b/.././../z//" ∧ path = "/x/z" ∧ IsCanonical path ∧
      resolve [("x", "//")] "" "nowhere/" path = path ∧ ¬ IsDots "z" ∧
      resolve marks "../b" "/x/y" (join '/' (List.replicate 9 "..")) = "/" := by
  intro marks path
  have hmarks : ∀ mark ∈ marks, IsCanonical mark.2 := by decide
  have hcwd : IsCanonical "/x/y" := by decide
  have hrelative : PlainlyRelative marks "@b/.././../z//" :=
    ⟨by decide, by decide, by decide, by decide⟩
  have hpath : path = "/x/z" := by decide
  have hhere : ∀ name ∈ segments "/x/y", ¬ IsDots name := by
    have hnames : segments "/x/y" = ["x", "y"] := by decide
    simp [hnames, IsDots]
  have hz : "z" ∈ segments path := by decide
  obtain ⟨hcanonical, hagain, hdots, hup⟩ := resolve_settled hmarks hcwd "../b" "@b/.././../z//"
  exact ⟨hmarks, hcwd, hrelative, hpath, hcanonical, hagain _ _ _, hdots hrelative hhere "z" hz,
    hup 9⟩

end Path

end SimTerm

import SimTerm.Commands.System
import SimTerm.Editor
import SimTerm.Proofs.Entries.Order
import SimTerm.Proofs.Line.Cut
import SimTerm.Proofs.Path
import SimTerm.Text.LineEdit

/-!
# Texts without line breaks

A text is *unbroken* if no character of it would end a line. Cutting and trimming make up no
characters, so what an unbroken line is cut into is unbroken, and so is what is put together again,
unless a line break is put in between: `resolve_unbroken` for the paths that inputs mean. The lines
of a file have lost their line feeds, so only a carriage return could break the line of a script.
-/

namespace SimTerm

namespace Text

/-- No character of the text ends a line. -/
def Unbroken (cs : List Char) : Prop :=
  ∀ c ∈ cs, Editor.isBreak c = false

-- named, as to decide it for each of all characters would take long
instance (cs : List Char) : Decidable (Unbroken cs) :=
  List.decidableBAll (fun c => Editor.isBreak c = false) cs

/-- There is no carriage return in the text. -/
def ReturnFree (text : String) : Prop :=
  '\r' ∉ text.toList

/-- What has no other characters than an unbroken text is unbroken. -/
theorem Unbroken.subset {cs ds : List Char} (h : Unbroken ds) (hsub : cs ⊆ ds) : Unbroken cs :=
  fun c hc => h c (hsub hc)

theorem unbroken_nil : Unbroken [] :=
  List.forall_mem_nil _

/-- A text in two parts is unbroken exactly if both parts are. -/
theorem unbroken_append {cs ds : List Char} : Unbroken (cs ++ ds) ↔ Unbroken cs ∧ Unbroken ds :=
  List.forall_mem_append

theorem unbroken_iff {cs : List Char} : Unbroken cs ↔ '\r' ∉ cs ∧ '\n' ∉ cs := by
  simp only [Unbroken, Editor.isBreak, Bool.or_eq_false_iff, beq_eq_false_iff_ne]
  refine ⟨fun h => ⟨fun hc => (h _ hc).1 rfl, fun hc => (h _ hc).2 rfl⟩, fun h c hc => ⟨?_, ?_⟩⟩
  · rintro rfl
    exact h.1 hc
  · rintro rfl
    exact h.2 hc

/-- An unbroken text has no carriage return. -/
theorem Unbroken.returnFree {text : String} (h : Unbroken text.toList) : ReturnFree text :=
  (unbroken_iff.1 h).1

/-! ## Pieces -/

/-- The pieces have no characters but those of the text. -/
def Within (cs : List Char) (ps : List (List Char)) : Prop :=
  ∀ p ∈ ps, p ⊆ cs

section Within

variable {c : Char} {cs : List Char} {ps : List (List Char)}

theorem within_nil (cs : List Char) : Within cs [[]] :=
  List.forall_mem_singleton.2 (List.nil_subset cs)

/-- Pieces of a text are within the text with one character more. -/
theorem Within.skip (h : Within cs ps) : Within (c :: cs) ps :=
  fun p hp => List.subset_cons_of_subset c (h p hp)

theorem Within.close (h : Within cs ps) : Within (c :: cs) ([] :: ps) :=
  List.forall_mem_cons.2 ⟨List.nil_subset _, h.skip⟩

/-- So are they with this character in the first piece. -/
theorem Within.consFirst (h : Within cs ps) : Within (c :: cs) (consFirst c ps) := by
  cases ps with
  | nil => exact List.forall_mem_singleton.2 (List.cons_subset_cons c (List.nil_subset cs))
  | cons p ps =>
    obtain ⟨hfirst, hrest⟩ := List.forall_mem_cons.1 h
    exact List.forall_mem_cons.2 ⟨List.cons_subset_cons c hfirst, Within.skip hrest⟩

end Within

/-- The pieces of a text have no characters but its own, by induction on the text. -/
theorem pieces_within (sep : Char) (cs : List Char) : Within cs (pieces sep cs) := by
  induction cs with
  | nil => exact within_nil []
  | cons c cs ih =>
    rw [pieces]
    split
    · exact ih.close
    · exact ih.consFirst

/-- What is in a joined text is the separator or in one of the pieces. -/
theorem mem_joined {sep c : Char} {ps : List (List Char)} (h : c ∈ joined sep ps) :
    c = sep ∨ ∃ p ∈ ps, c ∈ p := by
  induction ps with
  | nil => cases h
  | cons p ps ih =>
    cases ps with
    | nil =>
      have hp : c ∈ p := by simpa [joined] using h
      exact Or.inr ⟨p, List.mem_cons_self, hp⟩
    | cons q qs =>
      rw [joined_cons_cons, List.mem_append, List.mem_cons] at h
      rcases h with hp | rfl | hrest
      · exact Or.inr ⟨p, List.mem_cons_self, hp⟩
      · exact Or.inl rfl
      · rcases ih hrest with rfl | ⟨r, hr, hc⟩
        · exact Or.inl rfl
        · exact Or.inr ⟨r, List.mem_cons_of_mem p hr, hc⟩

/-- Unbroken pieces that are joined by no line break are unbroken. -/
theorem joined_unbroken {sep : Char} (hsep : Editor.isBreak sep = false) {ps : List (List Char)}
    (h : ∀ p ∈ ps, Unbroken p) : Unbroken (joined sep ps) := by
  intro c hc
  rcases mem_joined hc with rfl | ⟨p, hp, hcp⟩
  · exact hsep
  · exact h p hp c hcp

/-- Trimming brings in no character. -/
theorem trim_subset (cs : List Char) : trim cs ⊆ cs := by
  intro c hc
  have hstart : c ∈ trimStart cs := (List.rdropWhile_prefix isBlank _).subset hc
  exact (List.dropWhile_suffix isBlank).subset hstart

/-! ## Lines of a file -/

/-- The lines of a text have no characters but its own. -/
theorem subset_of_mem_lines {text line : String} (h : line ∈ lines text) :
    line.toList ⊆ text.toList := by
  obtain ⟨p, hp, rfl⟩ := List.mem_map.1 h
  rw [String.toList_ofList]
  exact pieces_within '\n' text.toList p hp

/-- Lines without carriage returns are joined to a text without any. -/
theorem unlines_returnFree {ls : List String} (h : ∀ l ∈ ls, ReturnFree l) :
    ReturnFree (unlines ls) := by
  intro hc
  rw [unlines, join, String.toList_ofList] at hc
  rcases mem_joined hc with heq | ⟨p, hp, hcp⟩
  · cases heq
  · obtain ⟨l, hl, rfl⟩ := List.mem_map.1 hp
    exact h l hl hcp

/-- An edit adds no line but the new one and empty ones in front of it. -/
theorem mem_of_editLines? {ls edited : List String} {place line l : String}
    (h : editLines? ls place line = some edited) (hl : l ∈ edited) :
    l ∈ ls ∨ l = line ∨ l = "" := by
  unfold editLines? at h
  split at h
  · obtain rfl : ls ++ [line] = edited := Option.some.inj h
    exact (List.mem_append.1 hl).imp_right fun hline => Or.inl (List.mem_singleton.1 hline)
  · obtain ⟨n, -, rfl⟩ := Option.map_eq_some_iff.1 h
    rcases List.mem_or_eq_of_mem_set hl with hold | rfl
    · rcases List.mem_append.1 hold with hls | hpad
      · exact Or.inl hls
      · exact Or.inr (Or.inr (List.eq_of_mem_replicate hpad))
    · exact Or.inr (Or.inl rfl)

/-- Writing an unbroken line into a text without carriage returns brings in none. -/
theorem editLines?_returnFree {content place : String} {words edited : List String}
    (hcontent : ReturnFree content) (hwords : ∀ word ∈ words, Unbroken word.toList)
    (h : editLines? (lines content) place (join ' ' words) = some edited) :
    ReturnFree (unlines edited) := by
  refine unlines_returnFree fun l hl => ?_
  rcases mem_of_editLines? h hl with hold | rfl | rfl
  · exact fun hc => hcontent (subset_of_mem_lines hold hc)
  · refine Unbroken.returnFree ?_
    rw [join, String.toList_ofList]
    refine joined_unbroken rfl fun p hp => ?_
    obtain ⟨word, hword, rfl⟩ := List.mem_map.1 hp
    exact hwords word hword
  · exact List.not_mem_nil

end Text

open Text

/-! ## Command lines -/

namespace Line

/-- Cutting at unquoted separators brings in no character, by induction on the text. -/
theorem unquotedPieces_within (sep : Char) (quoted : Bool) (cs : List Char) :
    Within cs (unquotedPieces sep quoted cs) := by
  induction cs generalizing quoted with
  | nil => exact within_nil []
  | cons c cs ih =>
    rw [unquotedPieces_cons]
    split
    · exact (ih _).close
    · exact (ih _).consFirst

theorem tokenPieces_within (quoted : Bool) (cs : List Char) :
    Within cs (tokenPieces quoted cs) := by
  induction cs generalizing quoted with
  | nil => exact within_nil []
  | cons c cs ih =>
    rw [tokenPieces]
    split
    · exact (ih _).skip
    · split
      · exact (ih _).close
      · exact (ih _).consFirst

/-- The trimmed pieces of a text have no characters but its own. -/
theorem subset_of_mem_trimmedPieces {sep : Char} {text : List Char} {piece : String}
    (h : piece ∈ (trimmedPieces sep text).map String.ofList) : piece.toList ⊆ text := by
  obtain ⟨p, hp, rfl⟩ := List.mem_map.1 h
  obtain ⟨q, hq, rfl⟩ := List.mem_map.1 (List.mem_filter.1 hp).1
  rw [String.toList_ofList]
  exact List.Subset.trans (trim_subset q) (unquotedPieces_within sep false text q hq)

theorem subset_of_mem_parts {line part : String} (h : part ∈ parts line) :
    part.toList ⊆ line.toList :=
  subset_of_mem_trimmedPieces h

theorem subset_of_mem_stages {part stage : String} (h : stage ∈ stages part) :
    stage.toList ⊆ part.toList :=
  subset_of_mem_trimmedPieces h

theorem subset_of_mem_tokens {stage token : String} (h : token ∈ tokens stage) :
    token.toList ⊆ stage.toList := by
  obtain ⟨p, hp, rfl⟩ := List.mem_map.1 h
  rw [String.toList_ofList]
  exact tokenPieces_within false stage.toList p (List.mem_filter.1 hp).1

end Line

/-- The lines of a script are unbroken if there is no carriage return in it. -/
theorem Commands.scriptLines_unbroken {source line : String} (h : ReturnFree source)
    (hline : line ∈ scriptLines source) : Unbroken line.toList := by
  obtain ⟨p, hp, rfl⟩ := List.mem_map.1 hline
  obtain ⟨q, hq, rfl⟩ := List.mem_map.1 (List.mem_filter.1 hp).1
  rw [String.toList_ofList]
  have hpiece : Unbroken q :=
    unbroken_iff.2
      ⟨fun hc => h (pieces_within '\n' source.toList q hq hc), not_mem_of_mem_pieces hq⟩
  exact hpiece.subset (trim_subset q)

/-! ## Paths -/

namespace Path

theorem subset_of_mem_segmentsOf {text : List Char} {segment : String}
    (h : segment ∈ segmentsOf text) : segment.toList ⊆ text := by
  obtain ⟨p, hp, rfl⟩ := List.mem_map.1 h
  rw [String.toList_ofList]
  exact pieces_within '/' text p (List.mem_filter.1 hp).1

/-- A path that is written from unbroken names is unbroken. -/
theorem ofSegments_unbroken {segs : List String} (h : ∀ seg ∈ segs, Unbroken seg.toList) :
    Unbroken (ofSegments segs).toList := by
  have hjoined : Unbroken (joined '/' (segs.map String.toList)) := by
    refine joined_unbroken rfl fun p hp => ?_
    obtain ⟨seg, hseg, rfl⟩ := List.mem_map.1 hp
    exact h seg hseg
  rw [ofSegments, String.toList_ofList]
  exact List.forall_mem_cons.2 ⟨rfl, hjoined⟩

theorem home_unbroken {user : String} (h : Unbroken user.toList) : Unbroken (home user).toList := by
  rw [home, String.toList_append]
  exact unbroken_append.2 ⟨by decide, h⟩

/-- A tilde brings in nothing but the home of the user. -/
theorem expandHome_unbroken {user : String} (huser : Unbroken user.toList) {text : List Char}
    (h : Unbroken text) : Unbroken (expandHome user text) := by
  unfold expandHome
  split
  · exact home_unbroken huser
  · next rest => exact unbroken_append.2 ⟨home_unbroken huser, (List.forall_mem_cons.1 h).2⟩
  · exact h

/-- A mark for the root brings in nothing but a slash. -/
theorem expandRoot_unbroken {text : List Char} (h : Unbroken text) :
    Unbroken (expandRoot text) := by
  unfold expandRoot
  split
  · decide
  · exact (List.forall_mem_cons.1 h).2
  · exact h

/-- What an unbroken input means is unbroken, if everything is that it may lead to. -/
theorem resolve_unbroken {bookmarks : Entries String} {user cwd input : String}
    (hmarks : ∀ mark ∈ bookmarks, Unbroken mark.2.toList) (huser : Unbroken user.toList)
    (hcwd : Unbroken cwd.toList) (hinput : Unbroken input.toList) :
    Unbroken (resolve bookmarks user cwd input).toList := by
  have hexpanded : Unbroken (expandHome user (expandRoot input.toList)) :=
    expandHome_unbroken huser (expandRoot_unbroken hinput)
  -- as it is resolved: nothing given, a bookmark, a path from the root, a walk from here
  unfold resolve
  split
  · exact hcwd
  · split
    · next target htarget =>
      unfold bookmarkTarget? at htarget
      split at htarget
      · exact hmarks _ (Entries.mem_of_get? htarget)
      · cases htarget
    · split
      · next rest hrooted =>
        rw [hrooted] at hexpanded
        have hrest : Unbroken rest := (List.forall_mem_cons.1 hexpanded).2
        exact ofSegments_unbroken fun seg hseg => hrest.subset (subset_of_mem_segmentsOf hseg)
      · refine ofSegments_unbroken fun seg hseg => ?_
        rcases mem_walk hseg with hhere | hstep
        · exact hcwd.subset (subset_of_mem_segmentsOf hhere)
        · exact hexpanded.subset (subset_of_mem_segmentsOf hstep)

end Path

end SimTerm

import Mathlib.Data.List.Chain
import SimTerm.Proofs.Entries.Order
import SimTerm.Proofs.Path

/-!
# Canonical paths

A path is canonical if it starts with a slash, has no empty segment, and ends in a slash only if it
is the root. A path that is written from names is canonical, whatever names these are, and what an
input means is written in this way or is a path that was there before: `resolve_canonical`.
-/

namespace SimTerm.Path

/-- Not both characters are slashes. -/
def SlashesApart (a b : Char) : Prop :=
  ¬(a = '/' ∧ b = '/')

instance : DecidableRel SlashesApart :=
  fun a b => inferInstanceAs (Decidable (¬(a = '/' ∧ b = '/')))

/-- The path starts with a slash, has no empty segment, and no slash at its end unless it is the
root. -/
structure IsCanonical (path : String) : Prop where
  rooted : path.toList.head? = some '/'
  noEmptySegment : path.toList.IsChain SlashesApart
  noSlashAtEnd : path = "/" ∨ path.toList.getLast? ≠ some '/'

instance (path : String) : Decidable (IsCanonical path) :=
  decidable_of_iff (path.toList.head? = some '/' ∧ path.toList.IsChain SlashesApart ∧
      (path = "/" ∨ path.toList.getLast? ≠ some '/'))
    ⟨fun ⟨hrooted, happart, hend⟩ => ⟨hrooted, happart, hend⟩,
      fun h => ⟨h.rooted, h.noEmptySegment, h.noSlashAtEnd⟩⟩

theorem root_canonical : IsCanonical "/" := by
  decide

/-! ## Paths written from names -/

/-- The text between the first slash of a path and its end, in a path other than the root. -/
structure BehindRoot (cs : List Char) : Prop where
  ne_nil : cs ≠ []
  head : cs.head? ≠ some '/'
  chain : cs.IsChain SlashesApart
  last : cs.getLast? ≠ some '/'

/-- A name may stand behind the root. -/
theorem IsName.behindRoot {name : String} (h : IsName name) : BehindRoot name.toList := by
  have hne : ∀ c ∈ name.toList, c ≠ '/' := fun c hc heq => h.no_slash (heq ▸ hc)
  refine ⟨h.ne_nil, fun hhead => ?_, ?_, fun hlast => ?_⟩
  · exact hne _ (List.mem_of_head? hhead) rfl
  · have hpairs : name.toList.Pairwise SlashesApart :=
      List.pairwise_of_forall_mem_list fun a ha _ _ hab => hne a ha hab.1
    exact hpairs.isChain
  · exact hne _ (List.mem_of_getLast? hlast) rfl

/-- One more segment in front. -/
theorem BehindRoot.append {p cs : List Char} (hp : BehindRoot p) (h : BehindRoot cs) :
    BehindRoot (p ++ '/' :: cs) := by
  have hbehind : ('/' :: cs).IsChain SlashesApart :=
    List.isChain_cons.2 ⟨fun c hc hslashes => h.head (hslashes.2 ▸ hc), h.chain⟩
  refine ⟨by simp, ?_, ?_, ?_⟩
  · rw [List.head?_append_of_ne_nil p hp.ne_nil]
    exact hp.head
  · exact List.isChain_append.2
      ⟨hp.chain, hbehind, fun c hc _ _ hslashes => hp.last (hslashes.1 ▸ hc)⟩
  · rw [List.getLast?_append_of_ne_nil p (List.cons_ne_nil '/' cs),
      List.getLast?_cons_of_ne_nil h.ne_nil]
    exact h.last

/-- Names that are joined by slashes may stand behind the root. -/
theorem joined_behindRoot {names : List String} (hne : names ≠ []) (h : ∀ name ∈ names, IsName name) :
    BehindRoot (Text.joined '/' (names.map String.toList)) := by
  induction names with
  | nil => exact absurd rfl hne
  | cons name names ih =>
    obtain ⟨hname, hnames⟩ := List.forall_mem_cons.1 h
    cases names with
    | nil =>
      have hone : Text.joined '/' [name.toList] = name.toList := by simp [Text.joined]
      rw [List.map_singleton, hone]
      exact hname.behindRoot
    | cons next names =>
      rw [List.map_cons, List.map_cons, Text.joined_cons_cons]
      exact hname.behindRoot.append (ih (List.cons_ne_nil next names) hnames)

/-- A path that is written from names is canonical. -/
theorem ofSegments_canonical {names : List String} (h : ∀ name ∈ names, IsName name) :
    IsCanonical (ofSegments names) := by
  cases names with
  | nil => exact root_canonical
  | cons name names =>
    have hbehind := joined_behindRoot (List.cons_ne_nil name names) h
    have hpath : (ofSegments (name :: names)).toList =
        '/' :: Text.joined '/' ((name :: names).map String.toList) := String.toList_ofList
    refine ⟨?_, ?_, Or.inr ?_⟩
    · rw [hpath]
      rfl
    · rw [hpath]
      exact List.isChain_cons.2
        ⟨fun c hc hslashes => hbehind.head (hslashes.2 ▸ hc), hbehind.chain⟩
    · rw [hpath, List.getLast?_cons_of_ne_nil hbehind.ne_nil]
      exact hbehind.last

/-! ## What inputs mean -/

/-- What an input means is canonical if the working directory and the bookmarks are, whatever user
and input there are. -/
theorem resolve_canonical {bookmarks : Entries String} {cwd : String}
    (hmarks : ∀ mark ∈ bookmarks, IsCanonical mark.2) (hcwd : IsCanonical cwd)
    (user input : String) : IsCanonical (resolve bookmarks user cwd input) := by
  unfold resolve
  split
  · exact hcwd
  · split
    · next target htarget =>
      unfold bookmarkTarget? at htarget
      split at htarget
      · exact hmarks _ (Entries.mem_of_get? htarget)
      · cases htarget
    · split
      · exact ofSegments_canonical fun name hname => isName_of_mem_segmentsOf hname
      · refine ofSegments_canonical fun name hname => ?_
        rcases mem_walk hname with hhere | hstep
        · exact isName_of_mem_segmentsOf hhere
        · exact isName_of_mem_segmentsOf hstep

end SimTerm.Path

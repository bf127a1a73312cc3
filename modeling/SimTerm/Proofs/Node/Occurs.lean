import SimTerm.Proofs.Node.Flat
import SimTerm.Proofs.Node.Order
import SimTerm.Proofs.Path

/-!
# Where nodes occur in a tree

A node occurs in a tree at the end of a way through the entries: each step takes the entry at some
place, which has some name. In an ordered tree the names alone tell the way, and following them leads
to the node. A tree is *named* if all names on all such ways can be segments of a path.
-/

namespace SimTerm.Node

/-- The last node occurs in the first: it is reached through the entries at these places, which have
these names. -/
inductive Occurs : Node → List Nat → List String → Node → Prop
  | here (n : Node) : Occurs n [] [] n
  | entry {es : Entries Node} {s : Stamps} {i : Nat} {name : String} {child n : Node}
      {places : List Nat} {names : List String} (hentry : es[i]? = some (name, child))
      (h : Occurs child places names n) : Occurs (.dir es s) (i :: places) (name :: names) n

/-- In an ordered tree the names lead to the node. -/
theorem Occurs.find? {root n : Node} {places : List Nat} {names : List String}
    (h : Occurs root places names n) (hroot : root.Ordered) : root.find? names = some n := by
  induction h with
  | here n => exact find?_nil n
  | @entry es s i name child n places names hentry _ ih =>
    have htable : IsTable es := ordered_dir_iff.1 hroot
    have hname : Entries.get? name es = some child :=
      Entries.get?_of_mem htable.sorted (List.mem_of_getElem? hentry)
    rw [Node.find?, hname]
    exact ih (htable.ordered_of_get? hname)

/-- In an ordered tree only one way has these names. -/
theorem Occurs.places_unique {root n m : Node} {places others : List Nat} {names : List String}
    (h : Occurs root places names n) (h' : Occurs root others names m) (hroot : root.Ordered) :
    places = others := by
  induction h generalizing others with
  | here n =>
    cases h'
    rfl
  | @entry es s i name child n places names hentry _ ih =>
    have htable : IsTable es := ordered_dir_iff.1 hroot
    have hchild : child.Ordered := entriesOrdered_iff.1 htable.ordered _ (List.mem_of_getElem? hentry)
    cases h' with
    | @entry _ _ j _ child' _ places' _ hentry' hbelow =>
      obtain rfl : i = j := htable.sorted.place_unique hentry hentry'
      obtain rfl : child = child' := by simpa [hentry] using hentry'
      rw [ih hbelow hchild]

/-- What is found occurs, with these names. -/
theorem exists_occurs_of_find? {root n : Node} {names : List String}
    (h : root.find? names = some n) : ∃ places, Occurs root places names n := by
  fun_induction Node.find? root names with
  | case1 root =>
    obtain rfl : root = n := Option.some.inj h
    exact ⟨[], .here root⟩
  | case2 => cases h
  | case3 es s name names m hm ih =>
    obtain ⟨places, hbelow⟩ := ih h
    obtain ⟨i, hi⟩ := List.mem_iff_getElem?.1 (Entries.mem_of_get? hm)
    exact ⟨i :: places, .entry hi hbelow⟩
  | case4 => cases h

/-! ## Names -/

/-- Every name in the tree, at every level, can be a segment of a path. -/
def Named (root : Node) : Prop :=
  ∀ places names n, Occurs root places names n → ∀ name ∈ names, Path.IsName name

theorem named_file (content : String) (s : Stamps) : (file content s).Named := by
  intro places names n h
  cases h
  exact List.forall_mem_nil _

/-- The names in a directory can be segments if those of its entries and those below them can. -/
theorem named_dir_iff {es : Entries Node} {s : Stamps} :
    (dir es s).Named ↔ ∀ e ∈ es, Path.IsName e.1 ∧ e.2.Named := by
  constructor
  · intro h e he
    obtain ⟨i, hi⟩ := List.mem_iff_getElem?.1 he
    refine ⟨h [i] [e.1] e.2 (.entry hi (.here e.2)) e.1 List.mem_cons_self, ?_⟩
    intro places names n hbelow name hname
    exact h (i :: places) (e.1 :: names) n (.entry hi hbelow) name (List.mem_cons_of_mem e.1 hname)
  · intro h places names n hoccurs
    cases hoccurs with
    | here => exact List.forall_mem_nil _
    | entry hentry hbelow =>
      obtain ⟨hname, hchild⟩ := h _ (List.mem_of_getElem? hentry)
      exact List.forall_mem_cons.2 ⟨hname, hchild _ _ _ hbelow⟩

variable {root n : Node} {names : List String}

/-- The names that lead to a node of a named tree can be segments. -/
theorem Named.isName_of_find? (h : root.Named) (hn : root.find? names = some n) :
    ∀ name ∈ names, Path.IsName name := by
  obtain ⟨places, hoccurs⟩ := exists_occurs_of_find? hn
  exact h places names n hoccurs

/-- A node found in a named tree is named. -/
theorem Named.of_find? (h : root.Named) (hn : root.find? names = some n) : n.Named := by
  fun_induction Node.find? root names with
  | case1 root =>
    obtain rfl : root = n := Option.some.inj hn
    exact h
  | case2 => cases hn
  | case3 es s name names m hm ih =>
    exact ih (named_dir_iff.1 h _ (Entries.mem_of_get? hm)).2 hn
  | case4 => cases hn

end SimTerm.Node

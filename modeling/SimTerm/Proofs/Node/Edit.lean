import SimTerm.Node.Edit

/-!
# Edits that succeeded

What an edit that succeeded went through: the directories on its path, what its path leads to, and
what a copy was made of.
-/

namespace SimTerm.Node

/-- The path of an edit that succeeded leads to a directory whose entries were edited. -/
theorem editEntries_cons {root after : Node} {name : String} {names : List String}
    {edit : Entries Node → Except FileError (Entries Node)}
    (h : root.editEntries (name :: names) edit = .ok after) :
    ∃ es s n n', root = .dir es s ∧ Entries.get? name es = some n ∧
      n.editEntries names edit = .ok n' ∧ after = .dir (Entries.insert name n' es) s := by
  cases root with
  | file => simp [editEntries] at h
  | dir es s =>
    cases hn : Entries.get? name es with
    | none => simp [editEntries, hn] at h
    | some n =>
      cases hedit : n.editEntries names edit with
      | error cause => simp [editEntries, hn, hedit, Except.map] at h
      | ok n' =>
        have hafter : Node.dir (Entries.insert name n' es) s = after := by
          simpa [editEntries, hn, hedit, Except.map] using h
        exact ⟨es, s, n, n', rfl, hn, hedit, hafter.symm⟩

/-- An edit of the entries of a node itself succeeds only on a directory. -/
theorem editEntries_nil {root after : Node}
    {edit : Entries Node → Except FileError (Entries Node)}
    (h : root.editEntries [] edit = .ok after) :
    ∃ es s es', root = .dir es s ∧ edit es = .ok es' ∧ after = .dir es' s := by
  cases root with
  | file => simp [editEntries] at h
  | dir es s =>
    cases hes : edit es with
    | error cause => simp [editEntries, hes, Except.map] at h
    | ok es' =>
      have hafter : Node.dir es' s = after := by
        simpa [editEntries, hes, Except.map] using h
      exact ⟨es, s, es', rfl, hes, hafter.symm⟩

/-- What leads to a node leads through directories. -/
theorem find?_dropLast_dir {root n : Node} {parent : List String} {name : String}
    (h : root.find? (parent ++ [name]) = some n) :
    ∃ es s, root.find? parent = some (.dir es s) := by
  rw [find?_append] at h
  obtain ⟨m, hm, hn⟩ := Option.bind_eq_some_iff.1 h
  cases m with
  | file => cases hn
  | dir es s => exact ⟨es, s, hm⟩

theorem splitLast?_eq_some {segs parent : List String} {name : String}
    (h : splitLast? segs = some (parent, name)) : segs = parent ++ [name] := by
  obtain ⟨last, hlast, heq⟩ := Option.map_eq_some_iff.1 h
  obtain ⟨rfl, rfl⟩ := Prod.mk.inj heq
  have hne : segs ≠ [] := fun hnil => by simp [hnil] at hlast
  rw [List.getLast?_eq_some_getLast hne, Option.some.injEq] at hlast
  rw [← hlast]
  exact (List.dropLast_concat_getLast hne).symm

/-- The parent and the last name of a path that ends in that name. -/
theorem splitLast?_append (parent : List String) (name : String) :
    splitLast? (parent ++ [name]) = some (parent, name) := by
  simp [splitLast?]

/-- What a copy that succeeded was made of. -/
theorem copyTo_eq_ok {now : Millis} {source : List String} {dest : String} {root after : Node}
    (h : root.copyTo now source dest = .ok after) :
    ∃ n parent name, root.find? source = some n ∧ Path.segments dest = parent ++ [name] ∧
      root.editEntries parent (fun es => .ok (Entries.insert name (n.freshCopy now) es)) =
        .ok after := by
  unfold copyTo at h
  cases hn : root.find? source with
  | none => simp [hn] at h
  | some n =>
    cases hlast : splitLast? (Path.segments dest) with
    | none => simp [hn, hlast] at h
    | some last =>
      obtain ⟨parent, name⟩ := last
      simp only [hn, hlast] at h
      cases hedit : root.editEntries parent fun es =>
          .ok (Entries.insert name (n.freshCopy now) es) with
      | error cause =>
        rw [hedit] at h
        cases h
      | ok made =>
        rw [hedit] at h
        obtain rfl : made = after := Except.ok.inj h
        exact ⟨n, parent, name, rfl, splitLast?_eq_some hlast, hedit⟩

end SimTerm.Node

import SimTerm.Proofs.Node.Flat
import SimTerm.Proofs.Node.Order

/-!
# Trees with the same flat map

The flat map forgets nothing of an ordered tree: where the same stands at every path, the trees are
the same, `eq_of_flat`.
-/

namespace SimTerm.Node

/-- Something stands at the empty path of every node. -/
theorem flat?_eq_nowhere_iff {n : Option Node} : flat? n = PathMap.nowhere ↔ n = none := by
  constructor
  · intro h
    cases n with
    | none => rfl
    | some n =>
      have hnil := congrFun h []
      rw [flat?_some, flat_nil] at hnil
      cases hnil
  · rintro rfl
    rfl

mutual
/-- An ordered tree is determined by what stands at its paths. -/
theorem eq_of_flat : ∀ n m : Node, n.Ordered → m.Ordered → n.flat = m.flat → n = m
  | .file content s, .file content' s', _, _, h => by
    have hnil := congrFun h []
    obtain ⟨rfl, rfl⟩ := Record.file.inj (Option.some.inj hnil)
    rfl
  | .file content s, .dir es s', _, _, h => nomatch congrFun h []
  | .dir es s, .file content s', _, _, h => nomatch congrFun h []
  | .dir es s, .dir es' s', hn, hm, h => by
    have htable := ordered_dir_iff.1 hn
    have htable' := ordered_dir_iff.1 hm
    have hbelow : ∀ name, flat? (Entries.get? name es) = flat? (Entries.get? name es') := by
      intro name
      funext names
      rw [← flat_dir_cons es s, h, flat_dir_cons]
    obtain rfl := Record.dir.inj (Option.some.inj (congrFun h []))
    -- sorted tables are equal if they answer alike, and below a name the maps are equal again
    rw [htable.sorted.eq_of_get? htable'.sorted fun name => ?_]
    cases hname : Entries.get? name es with
    | none =>
      have hnone := (hbelow name).symm
      rw [hname] at hnone
      exact (flat?_eq_nowhere_iff.1 hnone).symm
    | some child =>
      have hchild := hbelow name
      cases hname' : Entries.get? name es' with
      | none =>
        rw [hname, hname'] at hchild
        exact flat?_eq_nowhere_iff.1 hchild
      | some child' =>
        rw [hname, hname'] at hchild
        exact congrArg some (eq_of_flat_of_mem es htable.ordered _ (Entries.mem_of_get? hname)
          child' (htable'.ordered_of_get? hname') hchild)

/-- So is every node of the entries. -/
theorem eq_of_flat_of_mem : ∀ es : List (String × Node), EntriesOrdered es →
    ∀ e ∈ es, ∀ m : Node, m.Ordered → e.2.flat = m.flat → e.2 = m
  | [], _, _, he, _, _, _ => nomatch he
  | (name, n) :: es, hes, e, he, m, hm, h => by
    rw [EntriesOrdered] at hes
    rcases List.mem_cons.1 he with rfl | he
    · exact eq_of_flat n m hes.1 hm h
    · exact eq_of_flat_of_mem es hes.2 e he m hm h
end

end SimTerm.Node

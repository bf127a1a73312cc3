import SimTerm.Proofs.FileSystem.Refinement

/-!
# Changes of one path

All changes of the tree but copies and moves are of one path. Such a change looks at what stands at
the path, at the directory it is in and at the names directly below it, and nowhere else. Then it is
refused, or it changes what stands at that path and leaves all the rest: `change_local`.

What stands there afterwards follows from what stood there (`update_of_change`): it is new, with the
moment of the change, or it is gone, or it is still there, created when it was and modified now.
With copies, moves and changes of the bookmarks this is all that changes come to: `change_cases`.
-/

namespace SimTerm

open FileSystem (Change)

/-- The path of a change that is one of a single path. -/
def FileSystem.Change.place? : Change → Option String
  | .writeFile path _ => some path
  | .makeFile path => some path
  | .makeDir path => some path
  | .removeDir path => some path
  | .removeFile path => some path
  | .touch path => some path
  | _ => none

/-- When what stands at a path was created and when it was last modified. -/
def Record.stamps : Record → Stamps
  | .file _ s => s
  | .dir s => s

/-- A touch keeps the moment of creation. -/
@[simp] theorem Record.stamps_touched (now : Millis) (r : Record) :
    (r.touched now).stamps = ⟨r.stamps.created, now⟩ := by
  cases r <;> rfl

/-- A copy is created and modified at the moment it is made. -/
@[simp] theorem Record.stamps_renewed (now : Millis) (r : Record) :
    (r.renewed now).stamps = ⟨now, now⟩ := by
  cases r <;> rfl

theorem Node.stamps_record (n : Node) : n.record.stamps = n.stamps := by
  cases n <;> rfl

/-- What may stand at a path after a change of it at `now`, by what stood there before. -/
inductive Record.Follows (now : Millis) : Option Record → Option Record → Prop
  | made {r : Record} (h : r.stamps = ⟨now, now⟩) : Follows now none (some r)
  | kept {old r : Record} (h : r.stamps = ⟨old.stamps.created, now⟩) :
      Follows now (some old) (some r)
  | gone {old : Record} : Follows now (some old) none

namespace PathMap

/-- Two maps cannot be told apart at the path, directly above it and directly below it. -/
structure SameAround (path : List String) (m n : PathMap) : Prop where
  here : m path = n path
  above : m path.dropLast = n path.dropLast
  below : ∀ name, m (path ++ [name]) = n (path ++ [name])

theorem SameAround.refl (path : List String) (m : PathMap) : SameAround path m m :=
  ⟨rfl, rfl, fun _ => rfl⟩

/-- A change at a path that is apart cannot be seen. -/
theorem SameAround.update {path other : List String} (hpath : ¬ path <+: other)
    (hother : ¬ other <+: path) (m : PathMap) (r : Option Record) :
    SameAround path m (Function.update m other r) := by
  refine ⟨?_, ?_, fun name => ?_⟩
  · have hne : path ≠ other := fun heq => hpath (heq ▸ List.prefix_refl path)
    rw [Function.update_of_ne hne]
  · have hne : path.dropLast ≠ other := fun heq => hother (heq ▸ path.dropLast_prefix)
    rw [Function.update_of_ne hne]
  · have hne : path ++ [name] ≠ other := fun heq => hpath (heq ▸ List.prefix_append path [name])
    rw [Function.update_of_ne hne]

/-- Two maps that cannot be told apart around a path agree on whether its parent is a directory. -/
theorem SameAround.isDirAt {path : List String} {m n : PathMap} (h : SameAround path m n) :
    m.isDirAt path.dropLast = n.isDirAt path.dropLast := by
  rw [PathMap.isDirAt, PathMap.isDirAt, h.above]

/-- Two maps that cannot be told apart around a path agree on whether something is below it. -/
theorem SameAround.hasEntry {path : List String} {m n : PathMap} (h : SameAround path m n) :
    m.HasEntry path ↔ n.HasEntry path := by
  simp only [HasEntry, h.below]

/-- Whatever two maps have elsewhere, if they cannot be told apart around the path the change is
refused on both for the same reason, or puts the same at the path of both and leaves the rest. -/
def Local (now : Millis) (path : List String) (change : PathMap → Except FileError PathMap) : Prop :=
  ∀ m n, SameAround path m n →
    (∃ cause, change m = .error cause ∧ change n = .error cause) ∨
      ∃ r, Record.Follows now (m path) r ∧ change m = .ok (Function.update m path r) ∧
        change n = .ok (Function.update n path r)

variable (now : Millis) (path : List String)

/-- Whether a write is refused, and what it puts at its path, is up to that path and its parent. -/
theorem write_local (content : String) : Local now path (write now path content) := by
  intro m n h
  unfold write
  rw [← h.isDirAt, ← h.here]
  split
  · exact Or.inl ⟨_, rfl, rfl⟩
  · split
    · cases m path with
      | none => exact Or.inr ⟨_, .made rfl, rfl, rfl⟩
      | some old =>
        cases old with
        | file text s => exact Or.inr ⟨_, .kept rfl, rfl, rfl⟩
        | dir s => exact Or.inl ⟨_, rfl, rfl⟩
    · exact Or.inl ⟨_, rfl, rfl⟩

/-- Whether a directory can be made is up to its path and the parent. -/
theorem makeDir_local : Local now path (makeDir now path) := by
  intro m n h
  unfold makeDir
  rw [← h.isDirAt, ← h.here]
  split
  · exact Or.inl ⟨_, rfl, rfl⟩
  · split
    · cases m path with
      | none => exact Or.inr ⟨_, .made rfl, rfl, rfl⟩
      | some old => exact Or.inl ⟨_, rfl, rfl⟩
    · exact Or.inl ⟨_, rfl, rfl⟩

/-- Whether a directory can be removed is up to its path and what is directly below it. -/
theorem removeDir_local : Local now path (removeDir path) := by
  intro m n h
  unfold removeDir
  rw [← h.here]
  cases m path with
  | none => exact Or.inl ⟨_, rfl, rfl⟩
  | some old =>
    cases old with
    | file text s => exact Or.inl ⟨_, rfl, rfl⟩
    | dir s =>
      dsimp only
      by_cases hentry : m.HasEntry path
      · rw [if_pos hentry, if_pos (h.hasEntry.1 hentry)]
        exact Or.inl ⟨_, rfl, rfl⟩
      · rw [if_neg hentry, if_neg fun hn => hentry (h.hasEntry.2 hn)]
        split
        · exact Or.inl ⟨_, rfl, rfl⟩
        · exact Or.inr ⟨_, .gone, rfl, rfl⟩

/-- Whether a file can be removed is up to its path. -/
theorem removeFile_local : Local now path (removeFile path) := by
  intro m n h
  unfold removeFile
  rw [← h.here]
  cases m path with
  | none => exact Or.inl ⟨_, rfl, rfl⟩
  | some old =>
    cases old with
    | file text s => exact Or.inr ⟨_, .gone, rfl, rfl⟩
    | dir s => exact Or.inl ⟨_, rfl, rfl⟩

/-- Whether a path can be touched, and what stands there then, is up to that path and its parent. -/
theorem touch_local : Local now path (touch now path) := by
  intro m n h
  have hwrite := write_local now path "" m n h
  unfold touch
  rw [← h.here]
  cases hold : m path with
  | none =>
    rw [hold] at hwrite
    exact hwrite
  | some old => exact Or.inr ⟨_, .kept (old.stamps_touched now), rfl, rfl⟩

/-- A change of one path is local. -/
theorem change_local {c : Change} {place : String} (h : c.place? = some place) :
    Local now (Path.segments place) fun m => m.change now c := by
  cases c with
  | writeFile path content =>
    obtain rfl := Option.some.inj h
    exact write_local now _ content
  | makeFile path =>
    obtain rfl := Option.some.inj h
    exact write_local now _ ""
  | makeDir path =>
    obtain rfl := Option.some.inj h
    exact makeDir_local now _
  | removeDir path =>
    obtain rfl := Option.some.inj h
    exact removeDir_local now _
  | removeFile path =>
    obtain rfl := Option.some.inj h
    exact removeFile_local now _
  | touch path =>
    obtain rfl := Option.some.inj h
    exact touch_local now _
  | _ => cases h

/-- A change of one path that is made puts something there that follows what was there. -/
theorem update_of_change {now : Millis} {m after : PathMap} {c : Change} {place : String}
    (hc : c.place? = some place) (hafter : m.change now c = .ok after) :
    ∃ r, Record.Follows now (m (Path.segments place)) r ∧
      after = Function.update m (Path.segments place) r := by
  rcases change_local now hc m m (.refl _ m) with ⟨cause, herror, -⟩ | ⟨r, hr, hok, -⟩
  · cases hafter.symm.trans herror
  · exact ⟨r, hr, Except.ok.inj (hafter.symm.trans hok)⟩

/-- Everything that a change that is made can do. -/
theorem change_cases {now : Millis} {m after : PathMap} {c : Change}
    (h : m.change now c = .ok after) :
    (∃ place r, c.place? = some place ∧ Record.Follows now (m (Path.segments place)) r ∧
        after = Function.update m (Path.segments place) r) ∨
      (∃ source dest, c = .copy source dest ∧
        m.copy now (Path.segments source) dest = .ok after) ∨
      (∃ source dest, c = .move source dest ∧ m.move now source dest = .ok after) ∨
      (c.ofBookmarks = true ∧ after = m) := by
  cases hplace : c.place? with
  | some place =>
    obtain ⟨r, hr, hafter⟩ := update_of_change hplace h
    exact Or.inl ⟨place, r, rfl, hr, hafter⟩
  | none =>
    cases c with
    | copy source dest => exact Or.inr (Or.inl ⟨source, dest, rfl, h⟩)
    | move source dest => exact Or.inr (Or.inr (Or.inl ⟨source, dest, rfl, h⟩))
    | addBookmark name path => exact Or.inr (Or.inr (Or.inr ⟨rfl, (Except.ok.inj h).symm⟩))
    | removeBookmark name => exact Or.inr (Or.inr (Or.inr ⟨rfl, (Except.ok.inj h).symm⟩))
    | _ => cases hplace

end PathMap

end SimTerm

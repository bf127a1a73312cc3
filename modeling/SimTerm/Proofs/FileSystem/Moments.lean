import Mathlib.Data.List.Chain
import SimTerm.Proofs.FileSystem.Contents
import SimTerm.Proofs.FileSystem.OnePath
import SimTerm.Proofs.Node.Occurs

/-!
# When nodes were created and modified

A change stamps what it makes or modifies with the moment of the clock, and leaves the moments of
everything else alone. So if the clock never goes back, no node was modified before it was created,
or later than the clock says (`Timely`), and no call but a copy, a move or a reset can be told from
the moments of any node but the one at its path (`KeepsMoments`). Both are shown on the flat map
first and followed through the calls of a file system: `moments_consistent`.
-/

namespace SimTerm

open FileSystem (Change)

/-- Created no later than modified, and modified no later than `now`. -/
def Stamps.Timely (now : Millis) (s : Stamps) : Prop :=
  s.created ≤ s.modified ∧ s.modified ≤ now

/-- What is made now is not stamped in the future. -/
theorem Stamps.timely_stampedAt (now : Millis) : Stamps.Timely now ⟨now, now⟩ :=
  ⟨UInt64.le_refl now, UInt64.le_refl now⟩

/-- What is modified now is not stamped in the future. -/
theorem Stamps.Timely.modified {now : Millis} {s : Stamps} (h : s.Timely now) :
    Stamps.Timely now ⟨s.created, now⟩ :=
  ⟨UInt64.le_trans h.1 h.2, UInt64.le_refl now⟩

/-- What is not stamped in the future is not so later either. -/
theorem Stamps.Timely.mono {now later : Millis} {s : Stamps} (h : s.Timely now)
    (hlater : now ≤ later) : s.Timely later :=
  ⟨h.1, UInt64.le_trans h.2 hlater⟩

/-- The change may put other nodes in the place of nodes: it is a copy or a move. -/
def FileSystem.Change.replaces : Change → Bool
  | .copy .. => true
  | .move .. => true
  | _ => false

namespace PathMap

/-! ## Moments on the map -/

/-- All that stands anywhere is timely. -/
def Timely (now : Millis) (m : PathMap) : Prop :=
  ∀ path r, m path = some r → r.stamps.Timely now

variable {now : Millis} {m after : PathMap}

theorem Timely.mono (h : m.Timely now) {later : Millis} (hlater : now ≤ later) : m.Timely later :=
  fun path r hr => (h path r hr).mono hlater

theorem timely_nowhere : nowhere.Timely now :=
  fun _ _ hnone => nomatch hnone

/-- What follows at `now` from what stood there is timely. -/
theorem Timely.update (h : m.Timely now) {path : List String} {r : Option Record}
    (hr : Record.Follows now (m path) r) : Timely now (Function.update m path r) := by
  intro other new hnew
  by_cases hother : other = path
  · rw [hother, Function.update_self] at hnew
    generalize hold : m path = old at hr
    cases hr with
    | made hstamps =>
      obtain rfl := Option.some.inj hnew
      rw [hstamps]
      exact Stamps.timely_stampedAt now
    | kept hstamps =>
      obtain rfl := Option.some.inj hnew
      rw [hstamps]
      exact (h path _ hold).modified
    | gone => cases hnew
  · rw [Function.update_of_ne hother] at hnew
    exact h other new hnew

/-- A branch without stamps from the future may be grafted anywhere. -/
theorem Timely.graft {branch : PathMap} (h : m.Timely now) (hbranch : branch.Timely now)
    (path : List String) : (m.graft path branch).Timely now := by
  intro other r hr
  by_cases hpath : path <+: other
  · obtain ⟨rest, rfl⟩ := hpath
    rw [graft_append] at hr
    exact hbranch rest r hr
  · have hsame : m.graft path branch other = m other := graft_of_not_prefix hpath m branch
    rw [hsame] at hr
    exact h other r hr

/-- A copy is stamped now, and so keeps a map free of stamps from the future. -/
theorem Timely.copy (h : m.Timely now) {source : List String} {dest : String}
    (hafter : m.copy now source dest = .ok after) : after.Timely now := by
  rw [eq_graft_of_copy hafter]
  refine h.graft (fun rest r hrest => ?_) _
  obtain ⟨old, -, rfl⟩ := Option.map_eq_some_iff.1 hrest
  rw [Record.stamps_renewed]
  exact Stamps.timely_stampedAt now

/-- A move copies and takes away, and so stamps nothing later than now. -/
theorem Timely.move (h : m.Timely now) {source dest : String}
    (hafter : m.move now source dest = .ok after) : after.Timely now := by
  rcases move_ok_cases hafter with rfl | ⟨copied, hcopied, rfl⟩
  · exact h
  · exact (h.copy hcopied).graft timely_nowhere _

/-- Every change keeps the map timely. -/
theorem Timely.change (h : m.Timely now) {c : Change} (hafter : m.change now c = .ok after) :
    after.Timely now := by
  rcases change_cases hafter with
    ⟨place, r, -, hr, rfl⟩ | ⟨_, _, -, hcopy⟩ | ⟨_, _, -, hmove⟩ | ⟨-, rfl⟩
  · exact h.update hr
  · exact h.copy hcopy
  · exact h.move hmove
  · exact h

/-- What stands at a path before and after was created at the same moment, and modified at the same
moment as well unless the path is the given one. -/
def KeepsMoments (place : Option (List String)) (m after : PathMap) : Prop :=
  ∀ path old new, m path = some old → after path = some new →
    new.stamps.created = old.stamps.created ∧
      (new.stamps.modified = old.stamps.modified ∨ place = some path)

theorem KeepsMoments.refl (place : Option (List String)) (m : PathMap) : KeepsMoments place m m := by
  intro path old new hold hnew
  obtain rfl := Option.some.inj (hold.symm.trans hnew)
  exact ⟨rfl, Or.inl rfl⟩

/-- Changing one path keeps the moments of all others. -/
theorem KeepsMoments.update {path : List String} {r : Option Record}
    (hr : Record.Follows now (m path) r) :
    KeepsMoments (some path) m (Function.update m path r) := by
  intro other old new hold hnew
  by_cases hother : other = path
  · subst hother
    rw [Function.update_self] at hnew
    rw [hold, hnew] at hr
    cases hr with
    | kept hstamps => exact ⟨by rw [hstamps], Or.inr rfl⟩
  · rw [Function.update_of_ne hother] at hnew
    exact KeepsMoments.refl _ m other old new hold hnew

/-- Every change but a copy and a move keeps the moments. -/
theorem keepsMoments_of_change {c : Change} (hc : c.replaces = false)
    (hafter : m.change now c = .ok after) :
    KeepsMoments (c.place?.map Path.segments) m after := by
  rcases change_cases hafter with
    ⟨place, r, hplace, hr, rfl⟩ | ⟨_, _, rfl, -⟩ | ⟨_, _, rfl, -⟩ | ⟨-, rfl⟩
  · rw [hplace]
    exact .update hr
  · cases hc
  · cases hc
  · exact .refl _ _

end PathMap

/-- A directory that was made at `now` is timely if its entries are. -/
theorem Node.timely_dir {now : Millis} {es : Entries Node} (h : ∀ e ∈ es, e.2.flat.Timely now) :
    (Node.dir es (Node.stampedAt now)).flat.Timely now := by
  intro path r hr
  cases path with
  | nil =>
    obtain rfl := Option.some.inj hr
    exact Stamps.timely_stampedAt now
  | cons name names =>
    rw [Node.flat_dir_cons] at hr
    obtain ⟨n, hn, hbelow⟩ := Option.bind_eq_some_iff.1 hr
    exact h _ (Entries.mem_of_get? hn) names r hbelow

namespace FileSystem

/-! ## Calls and the clock -/

/-- The reading of the clock that a call is. -/
def Call.reading? : Call → Option Millis
  | .clock now => some now
  | _ => none

/-- The readings of the clock among calls. -/
def readings (calls : List Call) : List Millis :=
  calls.filterMap Call.reading?

/-- The path of a call that is about a change of one path. -/
def Call.place? : Call → Option String
  | .change c => c.place?
  | _ => none

/-- The call is a copy, a move or a reset. -/
def Call.replaces : Call → Bool
  | .change c => c.replaces
  | .reset => true
  | _ => false

/-! ## What every call keeps -/

/-- The root is a tree, and the bookmarks are a table. -/
structure InOrder (fs : FileSystem) : Prop where
  isTree : fs.root.IsTree
  sorted : fs.bookmarks.Sorted

/-- Opening finds a tree and sorted bookmarks, or makes them. -/
theorem open_inOrder (storage : Storage) (now : Millis) (options : TreeOptions) :
    (FileSystem.open storage now options).InOrder :=
  ⟨open_isTree storage now options, open_bookmarks_sorted storage now options⟩

namespace InOrder

variable {fs : FileSystem}

/-- Every call keeps the tree a tree and the bookmarks in order. -/
theorem perform (h : fs.InOrder) (call : Call) : (fs.perform call).2.InOrder := by
  cases call with
  | change c => exact ⟨change_isTree h.sorted h.isTree c, change_sorted h.sorted c⟩
  | query q => exact h
  | reset => exact ⟨defaultTree_isTree fs.options fs.now, Entries.sorted_nil⟩
  | clock now => exact ⟨h.isTree, h.sorted⟩

/-- A run of calls keeps the tree a tree and the bookmarks in order. -/
theorem after (h : fs.InOrder) (calls : List Call) : (fs.after calls).InOrder := by
  induction calls generalizing fs with
  | nil => exact h
  | cons call calls ih => exact ih (h.perform call)

/-- Only a new reading changes the moment. -/
theorem perform_now (h : fs.InOrder) (call : Call) :
    (fs.perform call).2.now = call.reading?.getD fs.now := by
  cases call with
  | change c => exact change_now h.sorted c
  | _ => rfl

end InOrder

/-! ## The moments of all nodes -/

/-- A file system all of whose nodes are timely. -/
structure Timely (fs : FileSystem) : Prop extends fs.InOrder where
  timely : fs.root.flat.Timely fs.now

/-- All of a default tree is made at once. -/
theorem defaultTree_timely (options : TreeOptions) (now : Millis) :
    (options.defaultTree now).flat.Timely now := by
  have hnew : (Node.newDir now).flat.Timely now := Node.timely_dir (List.forall_mem_nil _)
  unfold TreeOptions.defaultTree
  split
  · exact hnew
  · have hhome := Node.timely_dir
      (List.forall_mem_singleton.2 hnew : ∀ e ∈ [(options.user, Node.newDir now)], _)
    exact Node.timely_dir (List.forall_mem_cons.2 ⟨hnew, List.forall_mem_singleton.2 hhome⟩)

namespace Timely

variable {fs : FileSystem}

/-- No change stamps anything later than now. -/
theorem change (h : fs.Timely) (c : Change) : (fs.change c).2.Timely := by
  refine ⟨h.toInOrder.perform (.change c), ?_⟩
  rw [change_now h.sorted]
  rcases change_becomes h.sorted h.isTree.isDir c with hsame | hchanged | ⟨_, _, -, hcopied⟩
  · rw [hsame]
    exact h.timely
  · exact h.timely.change hchanged
  · exact h.timely.copy hcopied

/-- Whatever is called, all nodes stay timely, unless the clock goes back. -/
theorem perform (h : fs.Timely) (call : Call) (hclock : ∀ now ∈ call.reading?, fs.now ≤ now) :
    (fs.perform call).2.Timely := by
  cases call with
  | change c => exact h.change c
  | query q => exact h
  | reset => exact ⟨h.toInOrder.perform .reset, defaultTree_timely fs.options fs.now⟩
  | clock now => exact ⟨h.toInOrder.perform (.clock now), h.timely.mono (hclock now rfl)⟩

/-- After calls with a clock that never goes back all nodes are timely by its last reading. -/
theorem after (h : fs.Timely) {calls : List Call}
    (hclock : (fs.now :: readings calls).IsChain (· ≤ ·)) :
    (fs.after calls).root.flat.Timely ((readings calls).getLastD fs.now) := by
  induction calls generalizing fs with
  | nil => exact h.timely
  | cons call calls ih =>
    have hnow := h.toInOrder.perform_now call
    cases hreading : call.reading? with
    | none =>
      have hreadings : readings (call :: calls) = readings calls :=
        List.filterMap_cons_none hreading
      -- without a reading the clock stands where it was
      have hnext := h.perform call (by simp [hreading])
      rw [hreading, Option.getD_none] at hnow
      rw [hreadings] at hclock ⊢
      rw [← hnow] at hclock ⊢
      exact ih hnext hclock
    | some now =>
      have hreadings : readings (call :: calls) = now :: readings calls :=
        List.filterMap_cons_some hreading
      rw [hreadings, List.isChain_cons_cons] at hclock
      have hnext := h.perform call (by simpa [hreading] using hclock.1)
      rw [hreading, Option.getD_some] at hnow
      rw [hreadings, List.getLastD_cons, ← hnow]
      exact ih hnext (hnow ▸ hclock.2)

end Timely

/-- A call that replaces nothing keeps the moments of all nodes, but for the node at its path. -/
theorem perform_keepsMoments {fs : FileSystem} (h : fs.InOrder) {call : Call}
    (hcall : call.replaces = false) :
    PathMap.KeepsMoments (call.place?.map Path.segments) fs.root.flat
      (fs.perform call).2.root.flat := by
  cases call with
  | change c =>
    rw [perform]
    rcases change_becomes h.sorted h.isTree.isDir c with
      hsame | hchanged | ⟨source, dest, rfl, -⟩
    · rw [hsame]
      exact .refl _ _
    · exact PathMap.keepsMoments_of_change hcall hchanged
    · -- only a move can stop halfway, and a move replaces nodes
      cases hcall
  | query q => exact .refl _ _
  | reset => cases hcall
  | clock now => exact .refl _ _

/-- A file system is opened on a storage without a tree and called in any way while the clock never
goes back. Then every node of its tree was created no later than it was modified, and modified no
later than at the last reading of the clock. And whatever a file system is opened on, a call that is
no copy, no move and no reset leaves every node the moment at which it was created, and every node
but the one at the path of the call the moment at which it was modified. -/
theorem moments_consistent (storage : Storage) (now : Millis) (options : TreeOptions)
    (calls : List Call) :
    let fs := (FileSystem.open storage now options).after calls
    (storage.text? treeKey = none → (now :: readings calls).IsChain (· ≤ ·) →
      ∀ places names n, Node.Occurs fs.root places names n →
        n.stamps.created ≤ n.stamps.modified ∧
          n.stamps.modified ≤ (readings calls).getLastD now) ∧
      ∀ call, call.replaces = false → ∀ places places' names n n',
        Node.Occurs fs.root places names n →
        Node.Occurs (fs.perform call).2.root places' names n' →
          n'.stamps.created = n.stamps.created ∧
            (n'.stamps.modified = n.stamps.modified ∨
              ∃ path, call.place? = some path ∧ Path.segments path = names) := by
  intro fs
  have hinOrder : fs.InOrder := (open_inOrder storage now options).after calls
  have hstands {fs : FileSystem} (h : fs.InOrder) {places : List Nat} {names : List String}
      {n : Node} (hoccurs : Node.Occurs fs.root places names n) :
      fs.root.flat names = some n.record :=
    Node.flat_of_find? (hoccurs.find? h.isTree.ordered)
  constructor
  · intro hempty hclock places names n hoccurs
    have hopen : (FileSystem.open storage now options).Timely := by
      refine ⟨open_inOrder storage now options, ?_⟩
      rw [root_open_of_text?_eq_none hempty, now_open]
      exact defaultTree_timely options now
    have htimely := hopen.after (by rwa [now_open])
    rw [now_open] at htimely
    have hstamps := htimely names n.record (hstands hinOrder hoccurs)
    rw [Node.stamps_record] at hstamps
    exact hstamps
  · intro call hcall places places' names n n' hoccurs hoccurs'
    have hkept := perform_keepsMoments hinOrder hcall names n.record n'.record
      (hstands hinOrder hoccurs) (hstands (hinOrder.perform call) hoccurs')
    rw [Node.stamps_record, Node.stamps_record] at hkept
    refine ⟨hkept.1, hkept.2.imp_right fun hplace => ?_⟩
    exact Option.map_eq_some_iff.1 hplace

/-- A directory is made and later touched. When a file is written into it, it is still a directory
that was made at the first moment and modified at the second. -/
theorem moments_consistent_touched :
    let calls : List Call :=
      [.change (.makeDir "/home/d"), .clock 8, .change (.touch "/home/d"), .clock 9]
    let fs := (FileSystem.open {} 5 {}).after calls
    Node.Occurs fs.root [1, 0] ["home", "d"] (.dir [] ⟨5, 8⟩) ∧ (5 : Millis) ≤ 8 ∧ (8 : Millis) ≤ 9 ∧
      ∀ places n, Node.Occurs (fs.perform (.change (.writeFile "/home/d/f" "x"))).2.root places
        ["home", "d"] n → n.stamps = ⟨5, 8⟩ := by
  intro calls fs
  obtain ⟨htimely, hkept⟩ := moments_consistent {} 5 {} calls
  have hroot : fs.root = .dir
      [("apps", Node.newDir 5),
        ("home", .dir [("d", .dir [] ⟨5, 8⟩), ("guest", Node.newDir 5)] (Node.stampedAt 5))]
      (Node.stampedAt 5) := rfl
  have hoccurs : Node.Occurs fs.root [1, 0] ["home", "d"] (.dir [] ⟨5, 8⟩) := by
    rw [hroot]
    exact .entry rfl (.entry rfl (.here _))
  have hclock : (5 :: readings calls).IsChain (· ≤ ·) := by decide
  obtain ⟨hcreated, hmodified⟩ := htimely rfl hclock _ _ _ hoccurs
  refine ⟨hoccurs, hcreated, hmodified, fun places n h => ?_⟩
  obtain ⟨hcreated', hmodified'⟩ :=
    hkept (.change (.writeFile "/home/d/f" "x")) rfl _ _ _ _ _ hoccurs h
  rcases hmodified' with hsame | ⟨path, hpath, hsegments⟩
  · exact congrArg₂ Stamps.mk hcreated' hsame
  · obtain rfl : "/home/d/f" = path := Option.some.inj hpath
    exact absurd hsegments (by decide)

end FileSystem

end SimTerm

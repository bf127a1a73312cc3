import SimTerm.Proofs.Shell.BackOut
import SimTerm.Proofs.Shell.Dispatch

/-!
# Built-in commands back out

Every built-in command backs out but three. Moving is made of two changes, of which the first stands
when the second fails; starting over forgets the files even where it is refused; and a script runs
whole lines before it fails. Most of the others only read, or do not fail at all. Those that change
something look at everything that may be wrong before, and say only afterwards that it is done.

So a stage that fails has changed nothing but the screen: `failed_stage_sameButScreen`.
-/

namespace SimTerm

/-- If the command fails, it has changed nothing but the screen. -/
def Command.BacksOut (c : Command) : Prop :=
  ∀ (d : Dispatcher) (args : List String), Job.BacksOut (c.job d args)

open Environment (SameButScreen)

namespace Commands

open Job

/-! ## General commands -/

theorem help_backsOut : help.BacksOut := fun _ _ =>
  (spares_bind (spares_print _) fun _ => spares_printAll _).backsOut

theorem echo_backsOut : echo.BacksOut := fun _ _ =>
  (spares_print _).backsOut

/-- Clearing the screen does not fail. -/
theorem clear_backsOut : clear.BacksOut := fun _ _ =>
  (succeeds_lift _).backsOut

theorem currentDir_backsOut : currentDir.BacksOut := fun _ _ =>
  (spares_bind spares_get fun _ => spares_print _).backsOut

theorem about_backsOut : about.BacksOut := fun _ _ =>
  (spares_bind spares_get fun _ => spares_bind (spares_print _) fun _ =>
    spares_bind (spares_print _) fun _ => spares_bind (spares_print _) fun _ =>
      spares_print _).backsOut

/-- Asking whether a path leads to a directory changes nothing. -/
theorem spares_directory (input : String) : Spares (directory input) := by
  refine spares_bind (spares_lift (Shell.spares_resolve input)) fun path => ?_
  refine spares_bind spares_get fun e => ?_
  split
  · exact spares_pure _
  · exact spares_fail _

/-- The directory is changed last, and that does not fail. -/
theorem changeDir_backsOut : changeDir.BacksOut := fun _ _ =>
  (spares_directory _).bind_backsOut fun _ => (succeeds_lift _).backsOut

/-- Going back does not fail, whatever has become of the directory. -/
theorem back_backsOut : back.BacksOut := fun _ _ =>
  (succeeds_bind (succeeds_lift _) fun _ => succeeds_bind (succeeds_lift get) fun _ =>
    succeeds_lift _).backsOut

/-- The directory is looked for before anything is printed or changed. -/
theorem jump_backsOut : jump.BacksOut := fun _ _ =>
  (spares_orFail _ _).bind_backsOut fun _ => (spares_directory _).bind_backsOut fun _ =>
    (succeeds_bind (succeeds_lift _) fun _ => succeeds_lift _).backsOut

/-- All general commands back out. -/
theorem general_backsOut : ∀ c ∈ general, c.BacksOut := by
  simp only [general, List.forall_mem_cons]
  exact ⟨help_backsOut, echo_backsOut, clear_backsOut, currentDir_backsOut, about_backsOut,
    changeDir_backsOut, back_backsOut, jump_backsOut, List.forall_mem_nil _⟩

/-! ## Commands that read files -/

/-- What is asked of the files at a path, or a failure, and then printed. -/
theorem backsOut_report {args : List String} {α : Type} (ask : Environment → String → Option α)
    (missing : String → String) (report : String → α → Job Unit)
    (h : ∀ path a, Spares (report path a)) :
    BacksOut (do
      let path ← Shell.targetOrHere args
      let a ← orFail (missing path) (ask (← get) path)
      report path a) :=
  Spares.backsOut <| spares_bind (spares_lift (Shell.spares_targetOrHere args)) fun path =>
    spares_bind spares_get fun _ => spares_bind (spares_orFail _ _) fun a => h path a

theorem list_backsOut : list.BacksOut := fun _ _ =>
  backsOut_report _ _ _ fun _ _ => spares_printAll _

theorem tree_backsOut : tree.BacksOut := fun _ _ =>
  backsOut_report _ _ _ fun _ _ => spares_printAll _

theorem stat_backsOut : stat.BacksOut := fun _ _ =>
  backsOut_report _ _ _ fun _ _ => spares_bind spares_get fun _ =>
    spares_bind (spares_print _) fun _ => spares_bind (spares_print _) fun _ =>
      spares_bind (spares_print _) fun _ => spares_print _

/-- The content of a file is only looked up. -/
theorem spares_contentAt (path : String) : Spares (contentAt path) :=
  spares_bind spares_get fun _ => spares_orFail _ _

theorem read_backsOut : read.BacksOut := fun _ args =>
  (spares_bind (spares_target args _) fun path => spares_bind (spares_contentAt path) fun _ =>
    spares_printAll _).backsOut

/-- The files before a missing one stay printed, and that is all. -/
theorem spares_printFiles (inputs : List String) : Spares (printFiles inputs) := by
  induction inputs with
  | nil => exact spares_pure ()
  | cons input inputs ih =>
    exact spares_bind (spares_lift (Shell.spares_resolve input)) fun path =>
      spares_bind (spares_contentAt path) fun _ => spares_bind (spares_printAll _) fun _ => ih

/-- The lines of files, or of the input, are only printed. -/
theorem cat_backsOut : cat.BacksOut := by
  intro d args
  cases args with
  | nil =>
    refine (spares_bind spares_get fun e => ?_).backsOut
    by_cases hstdin : e.stdin = ""
    · simp only [if_pos hstdin]
      exact spares_fail _
    · simp only [if_neg hstdin]
      exact spares_printAll _
  | cons input inputs => exact (spares_printFiles (input :: inputs)).backsOut

theorem diskUsage_backsOut : diskUsage.BacksOut := by
  intro d args
  refine (spares_bind (spares_lift (Shell.spares_targetOrHere args)) fun path => ?_).backsOut
  refine spares_bind spares_get fun e => ?_
  dsimp only
  cases e.files.node? path with
  | none => exact spares_fail _
  | some n => exact spares_print _

theorem checksum_backsOut : checksum.BacksOut := fun _ args =>
  (spares_bind (spares_target args _) fun _ => spares_bind spares_get fun _ =>
    spares_bind (spares_orFail _ _) fun _ => spares_print _).backsOut

/-- A search below a path, with what is searched for in front of it. -/
theorem backsOut_searchAt (args : List String) (missing : String)
    (search : FileSystem → String → String → List String) :
    BacksOut (do
      let sought ← orFail missing args.head?
      let path ← Shell.targetOrHere args.tail
      Shell.printAll (search (← get).files sought path)) :=
  Spares.backsOut <| spares_bind (spares_orFail _ _) fun _ =>
    spares_bind (spares_lift (Shell.spares_targetOrHere args.tail)) fun _ =>
      spares_bind spares_get fun _ => spares_printAll _

theorem find_backsOut : find.BacksOut := fun _ args =>
  backsOut_searchAt args _ FileSystem.find

theorem seek_backsOut : seek.BacksOut := fun _ args =>
  backsOut_searchAt args _ FileSystem.seek

/-! ## Commands that change files -/

/-- A change of the files and a line that says so. -/
theorem BacksOut.said {change : FileSystem → Except Failure Unit × FileSystem}
    (h : BacksOut (onFiles change)) (line : String) :
    BacksOut (do onFiles change; Shell.print line) :=
  h.bind_succeeds fun _ => succeeds_lift _

/-- A change of the tree that an argument names, and a line that says so. -/
theorem backsOut_commitAt (args : List String) (missing : String)
    (edit : String → FileSystem → Node → Except FileError Node) (said : String → String) :
    BacksOut (do
      let path ← target args missing
      onFiles fun fs => fs.commit (edit path fs)
      Shell.print (said path)) :=
  (spares_target args missing).bind_backsOut fun path =>
    BacksOut.said (backsOut_commit (edit path)) (said path)

/-- Making a file changes the tree by one commit. -/
theorem makeFile_backsOut : makeFile.BacksOut := fun _ args =>
  backsOut_commitAt args _ (fun path fs => Node.putFile fs.now (Path.segments path) "") _

theorem makeDir_backsOut : makeDir.BacksOut := fun _ args =>
  backsOut_commitAt args _ (fun path fs => Node.makeDir fs.now (Path.segments path)) _

theorem removeDir_backsOut : removeDir.BacksOut := fun _ args =>
  backsOut_commitAt args _ (fun path _ => Node.removeDir path) _

theorem removeFile_backsOut : removeFile.BacksOut := fun _ args =>
  backsOut_commitAt args _ (fun path _ => Node.removeFile path) _

theorem touch_backsOut : touch.BacksOut := fun _ args =>
  backsOut_commitAt args _ (fun path fs => Node.touchAt fs.now (Path.segments path)) _

/-- Writing reads the file, edits its lines, and changes the tree by one commit. -/
theorem write_backsOut : write.BacksOut := by
  intro d args
  match args with
  | file :: place :: words =>
    refine (spares_lift (Shell.spares_resolve file)).bind_backsOut fun path => ?_
    refine spares_get.bind_backsOut fun e => ?_
    refine (spares_orFail _ _).bind_backsOut fun ls => ?_
    exact BacksOut.said
      (backsOut_commit fun fs => Node.putFile fs.now (Path.segments path) (Text.unlines ls)) _
  | [] => exact (spares_fail _).backsOut
  | [_] => exact (spares_fail _).backsOut

/-- Naming a source and a destination changes nothing. -/
theorem spares_sourceAndDest (args : List String) : Spares (sourceAndDest args) := by
  match args with
  | source :: dest :: _ =>
    exact spares_bind (spares_lift (Shell.spares_resolve source)) fun _ =>
      spares_bind (spares_lift (Shell.spares_resolve dest)) fun _ => spares_pure _
  | [] => exact spares_fail _
  | [_] => exact spares_fail _

/-- Copying changes the tree by one commit. -/
theorem copy_backsOut : copy.BacksOut := fun _ args =>
  (spares_sourceAndDest args).bind_backsOut fun (source, dest) =>
    BacksOut.said (backsOut_commit fun fs => Node.copyTo fs.now (Path.segments source) dest) _

/-- All file commands back out but the one that moves, whose copy may be stored without the removal.
-/
theorem files_backsOut : ∀ c ∈ files, c.BacksOut ∨ c = move := by
  simp only [files, List.forall_mem_cons]
  exact ⟨Or.inl list_backsOut, Or.inl tree_backsOut, Or.inl read_backsOut, Or.inl cat_backsOut,
    Or.inl makeFile_backsOut, Or.inl write_backsOut, Or.inl makeDir_backsOut,
    Or.inl removeDir_backsOut, Or.inl removeFile_backsOut, Or.inl touch_backsOut,
    Or.inl copy_backsOut, Or.inr trivial, Or.inl stat_backsOut, Or.inl find_backsOut,
    Or.inl seek_backsOut, Or.inl diskUsage_backsOut, Or.inl checksum_backsOut,
    List.forall_mem_nil _⟩

/-! ## Bookmark commands -/

/-- Setting a bookmark changes the table by one step that is undone if it cannot be stored. -/
theorem mark_backsOut : mark.BacksOut := fun _ args =>
  (spares_orFail _ _).bind_backsOut fun name =>
    (spares_lift (Shell.spares_targetOrHere args.tail)).bind_backsOut fun path =>
      BacksOut.said (backsOut_bookmarks (c := .addBookmark name path) rfl) _

theorem marks_backsOut : marks.BacksOut := by
  intro d args
  refine (spares_bind spares_get fun e => ?_).backsOut
  dsimp only
  cases e.files.bookmarks with
  | nil => exact spares_print _
  | cons m ms => exact spares_printAll _

/-- Deleting a bookmark changes the table by one step that is undone if it cannot be stored. -/
theorem unmark_backsOut : unmark.BacksOut := fun _ _ =>
  (spares_orFail _ _).bind_backsOut fun name =>
    BacksOut.said (backsOut_bookmarks (c := .removeBookmark name) rfl) _

/-- All bookmark commands back out. -/
theorem bookmarks_backsOut : ∀ c ∈ bookmarks, c.BacksOut := by
  simp only [bookmarks, List.forall_mem_cons]
  exact ⟨mark_backsOut, marks_backsOut, unmark_backsOut, List.forall_mem_nil _⟩

/-! ## System commands -/

/-- What cannot be put into the clipboard is not put there. -/
theorem clip_backsOut : clip.BacksOut := by
  intro d args
  refine spares_get.bind_backsOut fun e => ?_
  dsimp only
  generalize (if args = [] then e.stdin else Text.join ' ' args) = text
  -- a write that is refused has changed nothing, and after one that is not nothing fails
  cases e.clipboard.write text with
  | error failure =>
    have hrefused : Job.BacksOut (throw failure : Job Unit) := (spares_throw failure).backsOut
    split
    · exact (spares_fail _).bind_backsOut fun _ => hrefused
    · exact hrefused
  | ok clipboard =>
    have hcopied : Job.BacksOut (do
        set { e with clipboard }
        Shell.print "copied to clipboard" : Job Unit) :=
      (succeeds_bind (succeeds_lift (set _)) fun _ => succeeds_lift _).backsOut
    split
    · exact (spares_fail _).bind_backsOut fun _ => hcopied
    · exact hcopied

/-- A clipboard that cannot be read changes nothing; a text that was read is pasted. -/
theorem paste_backsOut : paste.BacksOut := by
  intro d args
  refine spares_get.bind_backsOut fun e => ?_
  cases e.clipboard.read with
  | error failure => exact (spares_throw failure).backsOut
  | ok text? =>
    cases text? with
    | none => exact (spares_fail _).backsOut
    | some text => exact (succeeds_lift _).backsOut

/-- A reboot does not fail. -/
theorem reboot_backsOut : reboot.BacksOut := fun _ _ =>
  (succeeds_lift _).backsOut

/-- Every built-in command backs out, moves, starts over or runs scripts. -/
theorem backsOut_or {c : Command} (h : c ∈ all) :
    c.BacksOut ∨ c = move ∨ c = reset ∨ c = script := by
  simp only [all, List.mem_append] at h
  rcases h with ((hgeneral | hfiles) | hbookmarks) | hsystem
  · exact Or.inl (general_backsOut c hgeneral)
  · exact (files_backsOut c hfiles).imp_right Or.inl
  · exact Or.inl (bookmarks_backsOut c hbookmarks)
  · simp only [system, List.mem_cons, List.not_mem_nil, or_false] at hsystem
    rcases hsystem with rfl | rfl | rfl | rfl | rfl
    · exact Or.inr (Or.inr (Or.inr rfl))
    · exact Or.inl clip_backsOut
    · exact Or.inl paste_backsOut
    · exact Or.inl reboot_backsOut
    · exact Or.inr (Or.inr (Or.inl rfl))

end Commands

/-! ## Stages -/

/-- Whatever the state, the clipboard and the storage: a stage that fails, and that names a built-in
command other than the three that do not back out or no command at all, has changed nothing but the
screen. -/
theorem Registry.failed_stage_sameButScreen (reg : Registry) (d : Dispatcher) {stage : String}
    {e : Environment} (hsorted : e.files.bookmarks.Sorted)
    (hnamed : ∀ name ∈ (Line.tokens stage).head?, reg.get? name = none ∨
      ∃ c ∈ Commands.all, reg.get? name = some c ∧ c.name ∉ ["mv", "reset", "cmd"])
    (hfailed : ((reg.runStage d stage).run e).1.success = false) :
    e.SameButScreen ((reg.runStage d stage).run e).2 := by
  obtain ⟨r, rfl, rfl, hran, hrun⟩ := exists_stageRun reg d stage e
  rw [hrun] at hfailed ⊢
  cases hran with
  | blank e h => cases hfailed
  | unknown e h hname => exact SameButScreen.printed e _
  | done e h hname hjob => cases hfailed
  | @failed stage name args c failure f e h hname hjob =>
    have hbacksOut : c.BacksOut := by
      rcases hnamed name (by rw [h]; rfl) with hnone | ⟨c', hmem, hc', hother⟩
      · rw [hname] at hnone
        cases hnone
      · obtain rfl : c = c' := Option.some.inj (hname.symm.trans hc')
        rcases Commands.backsOut_or hmem with hbacksOut | rfl | rfl | rfl
        · exact hbacksOut
        · exact absurd (by decide) hother
        · exact absurd (by decide) hother
        · exact absurd (by decide) hother
    have hran : (c.job d args).run.run e.captured = (.error failure, f) := hjob
    have hended := hbacksOut d args e.captured failure hsorted
    rw [hran] at hended
    -- around the command there is a capture, and the failure is printed when it has ended
    exact ((SameButScreen.captured e).trans (hended rfl)).trans
      ((SameButScreen.uncaptured f).trans (SameButScreen.printed _ _))

/-- A machine with a bookmark on a storage that refuses every save. -/
def fullStorage : Machine where
  session := { Session.ofSettings {} [] with screen := Screen.ofSize 2 60 [] }
  files :=
    { root := .dir [] ⟨0, 0⟩, bookmarks := [("a", "/old")], now := 5, options := {}
      storage := { refusal := fun call _ _ => if call = .save then some "full" else none } }

/-- A bookmark that cannot be stored stands for what it stood for before. -/
theorem failed_stage_sameButScreen_mark :
    let e : Environment := { toMachine := fullStorage }
    let result := (Commands.registry.runStage (Commands.registry.dispatcher 1) "mark a /new").run e
    e.files.bookmarks.Sorted ∧ result.1.success = false ∧ e.SameButScreen result.2 := by
  intro e result
  have hsorted : e.files.bookmarks.Sorted := List.pairwise_singleton _ _
  have hfailed : result.1.success = false := by decide +kernel
  have hmark : Entries.get? "mark" Commands.registry = some Commands.mark :=
    Commands.get?_registry.2 ⟨by simp [Commands.all, Commands.bookmarks], rfl⟩
  have htokens : Line.tokens "mark a /new" = ["mark", "a", "/new"] := by decide
  refine ⟨hsorted, hfailed, Registry.failed_stage_sameButScreen _ _ hsorted ?_ hfailed⟩
  rw [htokens]
  rintro name ⟨⟩
  exact Or.inr ⟨Commands.mark, by simp [Commands.all, Commands.bookmarks], hmark, by decide⟩

end SimTerm

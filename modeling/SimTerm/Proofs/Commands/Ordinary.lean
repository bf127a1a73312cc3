import SimTerm.Commands
import SimTerm.Proofs.Shell.Upkeep

/-!
# Ordinary commands

All built-in commands are ordinary but four: the one that runs scripts, the one that pastes, and the
two that boot the machine again.
-/

namespace SimTerm.Commands

open Job

variable {U : Upkeep}

/-! ## General commands -/

theorem help_ordinary : help.Ordinary := fun _ hU _ _ _ =>
  upholds_bind (upholds_print hU _) fun _ _ => upholds_printAll hU _

theorem echo_ordinary : echo.Ordinary := fun _ hU _ _ _ =>
  upholds_print hU _

theorem clear_ordinary : clear.Ordinary := fun _ hU _ _ _ =>
  upholds_lift (Shell.upholds_modify fun e he => hU.step (.clearScreen e) he)

theorem currentDir_ordinary : currentDir.Ordinary := fun _ hU _ _ _ =>
  upholds_bind upholds_get fun _ _ => upholds_print hU _

theorem about_ordinary : about.Ordinary := fun _ hU _ _ _ =>
  upholds_bind upholds_get fun _ _ => upholds_bind (upholds_print hU _) fun _ _ =>
    upholds_bind (upholds_print hU _) fun _ _ => upholds_bind (upholds_print hU _) fun _ _ =>
      upholds_print hU _

/-- The path of a directory is the one that the input means. -/
theorem upholds_directory (hU : U.Sound) {input : String} (h : U.arg input) :
    Job.Upholds U U.path (directory input) := by
  refine upholds_bind (upholds_lift (Shell.upholds_resolve hU h)) fun path hpath => ?_
  refine upholds_bind upholds_get fun e _ => ?_
  split
  · exact upholds_pure hpath
  · exact upholds_fail _

/-- Going to a granted path is an ordinary step. -/
theorem upholds_changeDir (hU : U.Sound) {path : String} (h : U.path path) :
    Job.Upholds U (fun _ => True) (liftM (Shell.onSession (·.changeDir path)) : Job PUnit) :=
  upholds_lift (Shell.upholds_modify fun e he => hU.step (.changeDir e h) he)

/-- The path that is entered is granted, as it was made from an argument or from a tilde. -/
theorem changeDir_ordinary : changeDir.Ordinary := by
  intro U hU d args hargs
  have hinput : U.arg (args.head?.getD "~") := by
    cases args with
    | nil => exact hU.homeSign
    | cons input args => exact hargs input List.mem_cons_self
  exact upholds_bind (upholds_directory hU hinput) fun path hpath => upholds_changeDir hU hpath

/-- The path that is gone back to is the directory left last, or the root. -/
theorem back_ordinary : back.Ordinary := by
  intro U hU d args _
  refine upholds_bind (Q := fun _ => True) (upholds_lift (Shell.upholds_modify fun e he => ?_))
    fun _ _ => upholds_bind upholds_get fun _ _ => upholds_print hU _
  exact hU.step (.changeDir e (hU.previous he)) he

theorem jump_ordinary : jump.Ordinary := fun _ hU _ _ hargs =>
  upholds_bind (upholds_orFail _ fun _ h => hargs _ (List.mem_of_mem_head? h)) fun _ hinput =>
    upholds_bind (upholds_directory hU hinput) fun _ hpath =>
      upholds_bind (upholds_print hU _) fun _ _ => upholds_changeDir hU hpath

/-- All general commands are ordinary. -/
theorem general_ordinary : ∀ c ∈ general, c.Ordinary := by
  simp only [general, List.forall_mem_cons]
  exact ⟨help_ordinary, echo_ordinary, clear_ordinary, currentDir_ordinary, about_ordinary,
    changeDir_ordinary, back_ordinary, jump_ordinary, List.forall_mem_nil _⟩

/-! ## File commands -/

theorem list_ordinary : list.Ordinary := fun _ hU _ _ hargs =>
  upholds_bind (upholds_lift (Shell.upholds_targetOrHere hU hargs)) fun _ _ =>
    upholds_bind upholds_get fun _ _ =>
      upholds_bind (Q := fun _ => True) (upholds_orFail _ fun _ _ => trivial) fun _ _ =>
        upholds_printAll hU _

theorem tree_ordinary : tree.Ordinary := fun _ hU _ _ hargs =>
  upholds_bind (upholds_lift (Shell.upholds_targetOrHere hU hargs)) fun _ _ =>
    upholds_bind upholds_get fun _ _ =>
      upholds_bind (Q := fun _ => True) (upholds_orFail _ fun _ _ => trivial) fun _ _ =>
        upholds_printAll hU _

/-- Looking a content up changes nothing. -/
theorem upholds_contentAt (path : String) :
    Job.Upholds U (fun _ => True) (contentAt path) :=
  upholds_bind upholds_get fun _ _ => upholds_orFail _ fun _ _ => trivial

theorem read_ordinary : read.Ordinary := fun _ hU _ _ hargs =>
  upholds_bind (upholds_target hU hargs _) fun path _ =>
    upholds_bind (upholds_contentAt path) fun _ _ => upholds_printAll hU _

/-- Printing files is ordinary, by induction on their names. -/
theorem upholds_printFiles (hU : U.Sound) {inputs : List String} (h : ∀ a ∈ inputs, U.arg a) :
    Job.Upholds U (fun _ => True) (printFiles inputs) := by
  induction inputs with
  | nil => exact upholds_pure trivial
  | cons input inputs ih =>
    obtain ⟨hinput, hinputs⟩ := List.forall_mem_cons.1 h
    exact upholds_bind (upholds_lift (Shell.upholds_resolve hU hinput)) fun path _ =>
      upholds_bind (upholds_contentAt path) fun _ _ =>
        upholds_bind (upholds_printAll hU _) fun _ _ => ih hinputs

theorem cat_ordinary : cat.Ordinary := by
  intro U hU d args hargs
  cases args with
  | nil =>
    refine upholds_bind upholds_get fun e _ => ?_
    by_cases hstdin : e.stdin = ""
    · simp only [if_pos hstdin]
      exact upholds_fail _
    · simp only [if_neg hstdin]
      exact upholds_printAll hU _
  | cons input inputs => exact upholds_printFiles hU hargs

/-- A change of the tree that an argument names, and a line that says so. -/
theorem upholds_changeAt (hU : U.Sound) {args : List String} (hargs : ∀ a ∈ args, U.arg a)
    (missing : String) (change : String → FileSystem.Change)
    (h : ∀ path, (change path).Granted U.path U.content) (said : String → String) :
    Job.Upholds U (fun _ => True) (do
      let path ← target args missing
      onFiles (·.change (change path))
      Shell.print (said path)) :=
  upholds_bind (upholds_target hU hargs _) fun path _ =>
    upholds_bind (upholds_onFiles hU (h path)) fun _ _ => upholds_print hU _

/-- The path of the new file is granted, and its content is empty. -/
theorem makeFile_ordinary : makeFile.Ordinary := fun _ hU _ _ hargs =>
  upholds_changeAt hU hargs _ .makeFile (fun _ => trivial) _

theorem makeDir_ordinary : makeDir.Ordinary := fun _ hU _ _ hargs =>
  upholds_changeAt hU hargs _ .makeDir (fun _ => trivial) _

theorem removeDir_ordinary : removeDir.Ordinary := fun _ hU _ _ hargs =>
  upholds_changeAt hU hargs _ .removeDir (fun _ => trivial) _

theorem removeFile_ordinary : removeFile.Ordinary := fun _ hU _ _ hargs =>
  upholds_changeAt hU hargs _ .removeFile (fun _ => trivial) _

theorem touch_ordinary : touch.Ordinary := fun _ hU _ _ hargs =>
  upholds_changeAt hU hargs _ .touch (fun _ => trivial) _

/-- The edited content is granted if the lines and the words it is made from are. -/
theorem write_ordinary : write.Ordinary := by
  intro U hU d args hargs
  match args with
  | file :: place :: words =>
    obtain ⟨hfile, -, hwords⟩ : U.arg file ∧ U.arg place ∧ ∀ a ∈ words, U.arg a := by
      simpa only [List.forall_mem_cons] using hargs
    refine upholds_bind (upholds_lift (Shell.upholds_resolve hU hfile)) fun path _ => ?_
    refine upholds_bind upholds_get fun e he => ?_
    refine upholds_bind (upholds_orFail _ fun ls hls => hU.edited he path place hwords hls)
      fun ls hcontent => ?_
    exact upholds_bind
      (upholds_onFiles (c := .writeFile path (Text.unlines ls)) hU hcontent)
      fun _ _ => upholds_print hU _
  | [] => exact upholds_fail _
  | [_] => exact upholds_fail _

/-- Both paths are made from arguments, so both are granted. -/
theorem upholds_sourceAndDest (hU : U.Sound) {args : List String} (hargs : ∀ a ∈ args, U.arg a) :
    Job.Upholds U (fun _ => True) (sourceAndDest args) := by
  match args with
  | source :: dest :: _ =>
    simp only [List.forall_mem_cons] at hargs
    exact upholds_bind (upholds_lift (Shell.upholds_resolve hU hargs.1)) fun _ _ =>
      upholds_bind (upholds_lift (Shell.upholds_resolve hU hargs.2.1)) fun _ _ =>
        upholds_pure trivial
  | [] => exact upholds_fail _
  | [_] => exact upholds_fail _

theorem copy_ordinary : copy.Ordinary := fun _ hU _ _ hargs =>
  upholds_bind (upholds_sourceAndDest hU hargs) fun (source, dest) _ =>
    upholds_bind (upholds_onFiles (c := .copy source dest) hU trivial) fun _ _ =>
      upholds_print hU _

/-- A move writes nothing that was not in the tree before. -/
theorem move_ordinary : move.Ordinary := fun _ hU _ _ hargs =>
  upholds_bind (upholds_sourceAndDest hU hargs) fun (source, dest) _ =>
    upholds_bind (upholds_onFiles (c := .move source dest) hU trivial) fun _ _ =>
      upholds_print hU _

theorem stat_ordinary : stat.Ordinary := fun _ hU _ _ hargs =>
  upholds_bind (upholds_lift (Shell.upholds_targetOrHere hU hargs)) fun _ _ =>
    upholds_bind upholds_get fun _ _ =>
      upholds_bind (Q := fun _ => True) (upholds_orFail _ fun _ _ => trivial) fun _ _ =>
        upholds_bind upholds_get fun _ _ => upholds_bind (upholds_print hU _) fun _ _ =>
          upholds_bind (upholds_print hU _) fun _ _ =>
            upholds_bind (upholds_print hU _) fun _ _ => upholds_print hU _

theorem diskUsage_ordinary : diskUsage.Ordinary := by
  intro U hU d args hargs
  refine upholds_bind (upholds_lift (Shell.upholds_targetOrHere hU hargs)) fun path _ => ?_
  refine upholds_bind upholds_get fun e _ => ?_
  dsimp only
  cases e.files.node? path with
  | none => exact upholds_fail _
  | some n => exact upholds_print hU _

theorem checksum_ordinary : checksum.Ordinary := fun _ hU _ _ hargs =>
  upholds_bind (upholds_target hU hargs _) fun _ _ => upholds_bind upholds_get fun _ _ =>
    upholds_bind (Q := fun _ => True) (upholds_orFail _ fun _ _ => trivial) fun _ _ =>
      upholds_print hU _

/-- A search below a path, with what is searched for in front of it. -/
theorem upholds_searchAt (hU : U.Sound) {args : List String} (hargs : ∀ a ∈ args, U.arg a)
    (missing : String) (search : FileSystem → String → String → List String) :
    Job.Upholds U (fun _ => True) (do
      let sought ← orFail missing args.head?
      let path ← Shell.targetOrHere args.tail
      Shell.printAll (search (← get).files sought path)) :=
  upholds_bind (Q := fun _ => True) (upholds_orFail _ fun _ _ => trivial) fun _ _ =>
    upholds_bind
      (upholds_lift (Shell.upholds_targetOrHere hU fun a ha => hargs a (List.mem_of_mem_tail ha)))
      fun _ _ => upholds_bind upholds_get fun _ _ => upholds_printAll hU _

theorem find_ordinary : find.Ordinary := fun _ hU _ _ hargs =>
  upholds_searchAt hU hargs _ FileSystem.find

theorem seek_ordinary : seek.Ordinary := fun _ hU _ _ hargs =>
  upholds_searchAt hU hargs _ FileSystem.seek

/-- All file commands are ordinary. -/
theorem files_ordinary : ∀ c ∈ files, c.Ordinary := by
  simp only [files, List.forall_mem_cons]
  exact ⟨list_ordinary, tree_ordinary, read_ordinary, cat_ordinary, makeFile_ordinary,
    write_ordinary, makeDir_ordinary, removeDir_ordinary, removeFile_ordinary, touch_ordinary,
    copy_ordinary, move_ordinary, stat_ordinary, find_ordinary, seek_ordinary, diskUsage_ordinary,
    checksum_ordinary, List.forall_mem_nil _⟩

/-! ## Bookmark commands -/

/-- The target of a bookmark is a granted path. -/
theorem mark_ordinary : mark.Ordinary := fun _ hU _ _ hargs =>
  upholds_bind (Q := fun _ => True) (upholds_orFail _ fun _ _ => trivial) fun name _ =>
    upholds_bind
      (upholds_lift (Shell.upholds_targetOrHere hU fun a ha => hargs a (List.mem_of_mem_tail ha)))
      fun path hpath =>
        upholds_bind (upholds_onFiles (c := .addBookmark name path) hU hpath) fun _ _ =>
          upholds_print hU _

theorem marks_ordinary : marks.Ordinary := by
  intro U hU d args _
  refine upholds_bind upholds_get fun e _ => ?_
  dsimp only
  cases e.files.bookmarks with
  | nil => exact upholds_print hU _
  | cons m ms => exact upholds_printAll hU _

theorem unmark_ordinary : unmark.Ordinary := fun _ hU _ _ _ =>
  upholds_bind (Q := fun _ => True) (upholds_orFail _ fun _ _ => trivial) fun name _ =>
    upholds_bind (upholds_onFiles (c := .removeBookmark name) hU trivial) fun _ _ =>
      upholds_print hU _

/-- All bookmark commands are ordinary. -/
theorem bookmarks_ordinary : ∀ c ∈ bookmarks, c.Ordinary := by
  simp only [bookmarks, List.forall_mem_cons]
  exact ⟨mark_ordinary, marks_ordinary, unmark_ordinary, List.forall_mem_nil _⟩

/-! ## The clipboard -/

/-- Filling the clipboard changes neither the session nor the files. -/
theorem clip_ordinary : clip.Ordinary := by
  intro U hU d args _
  refine upholds_get_bind fun e he => ?_
  dsimp only
  by_cases htext : (if args = [] then e.stdin else Text.join ' ' args) = ""
  · rw [if_pos htext]
    exact ⟨fun _ _ => trivial, he⟩
  · rw [if_neg htext]
    cases hwrite : e.clipboard.write (if args = [] then e.stdin else Text.join ' ' args) with
    | error failure => exact ⟨fun _ _ => trivial, he⟩
    | ok clipboard =>
      have hclip : U.holds { e with clipboard } := hU.step (.clip e _ clipboard hwrite) he
      exact ⟨fun _ _ => trivial, hU.step (.print _ _) hclip⟩

/-- Every built-in command is ordinary, runs scripts, pastes, or boots the machine again. -/
theorem ordinary_or {c : Command} (h : c ∈ all) :
    c.Ordinary ∨ c = script ∨ c = paste ∨ c = reboot ∨ c = reset := by
  simp only [all, List.mem_append] at h
  rcases h with ((hgeneral | hfiles) | hbookmarks) | hsystem
  · exact Or.inl (general_ordinary c hgeneral)
  · exact Or.inl (files_ordinary c hfiles)
  · exact Or.inl (bookmarks_ordinary c hbookmarks)
  · simp only [system, List.mem_cons, List.not_mem_nil, or_false] at hsystem
    rcases hsystem with hscript | rfl | hrest
    · exact Or.inr (Or.inl hscript)
    · exact Or.inl clip_ordinary
    · exact Or.inr (Or.inr hrest)

end SimTerm.Commands

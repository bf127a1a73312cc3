import SimTerm.Commands.Files
import SimTerm.Proofs.FileSystem.Flat
import SimTerm.Proofs.Shell.BackOut
import SimTerm.Proofs.Text.LineEdit
import SimTerm.Proofs.Text.Unbroken

/-!
# Writing and reading a file

`write` cuts the file into its lines, edits one of them and puts the lines together again, and `read`
cuts the file once more. Lines have no line feed in them, so `read` finds the very lines that `write`
has put together: `write_edits_one_line`. A place that is neither `+` nor the number of a line is
found out before anything is changed.
-/

namespace SimTerm

namespace Commands

/-- The path that an argument means in an environment. -/
def pathOf (e : Environment) (file : String) : String :=
  e.files.resolve e.session.user e.session.cwd file

/-- The lines of the file at a path; a missing file is like an empty one. -/
def linesAt (e : Environment) (path : String) : List String :=
  Text.lines ((e.files.read? path).getD "")

/-- Print the lines of the file at a path. -/
def readAt (path : String) : Job Unit := do
  Shell.printAll (Text.lines (← contentAt path))

/-- Looking a content up finds it or fails, and changes nothing. -/
theorem run_contentAt (path : String) (e : Environment) :
    (contentAt path).run.run e =
      (Job.orFail ("no such file: " ++ path) (e.files.read? path)).run.run e :=
  rfl

/-- Reading prints the lines of the file, if there is one. -/
theorem run_readAt (path : String) (e : Environment) :
    (readAt path).run.run e =
      match e.files.read? path with
      | none => (.error (.command ("no such file: " ++ path)), e)
      | some content =>
        (.ok (), { e with session := (Text.lines content).foldl Session.print e.session }) := by
  have hcontent := run_contentAt path e
  cases hread : e.files.read? path with
  | none =>
    rw [hread] at hcontent
    exact Job.run_bind_of_error hcontent
  | some content =>
    rw [hread, Job.run_orFail_some] at hcontent
    rw [readAt, Job.run_bind_of_ok hcontent, Job.run_lift, Shell.run_printAll]

/-- Reading with an argument reads at the path that the argument means. -/
theorem run_read (d : Dispatcher) (file : String) (args : List String) (e : Environment) :
    (read.job d (file :: args)).run.run e = (readAt (pathOf e file)).run.run e :=
  Job.run_resolve_bind file readAt e

/-- Write the lines that an edit has come to, if it has, into the file at a path. -/
def writeAt (path : String) (edited : Option (List String)) : Job Unit := do
  let ls ← Job.orFail "invalid line" edited
  Job.onFiles (·.writeFile path (Text.unlines ls))
  Shell.print ("wrote " ++ path)

/-- Writing stores the edited lines and says so, if the place was one that lines can be edited at.
-/
theorem run_writeAt (path : String) (edited : Option (List String)) (e : Environment) :
    (writeAt path edited).run.run e =
      match edited with
      | none => (.error (.command "invalid line"), e)
      | some ls =>
        match e.files.writeFile path (Text.unlines ls) with
        | (.ok (), files) =>
          (.ok (), { e with files, session := e.session.print ("wrote " ++ path) })
        | (.error failure, files) => (.error failure, { e with files }) := by
  cases edited with
  | none => rfl
  | some ls =>
    have hfiles := Job.run_onFiles (·.writeFile path (Text.unlines ls)) e
    rw [writeAt, Job.run_bind_of_ok (Job.run_orFail_some _ _ _)]
    dsimp only
    rcases hwrite : e.files.writeFile path (Text.unlines ls) with ⟨result, files⟩
    rw [hwrite] at hfiles
    cases result with
    | ok => exact Job.run_bind_of_ok hfiles
    | error failure => exact Job.run_bind_of_error hfiles

/-- Writing with arguments edits the lines that stand at the path, at the place that is named. -/
theorem run_write (d : Dispatcher) (file place : String) (words : List String) (e : Environment) :
    (write.job d (file :: place :: words)).run.run e =
      (writeAt (pathOf e file)
        (Text.editLines? (linesAt e (pathOf e file)) place (Text.join ' ' words))).run.run e :=
  Job.run_resolve_bind file (fun path => get >>= fun g =>
    writeAt path (Text.editLines? (linesAt g path) place (Text.join ' ' words))) e

/-- The environment after a file of these lines was written: the file is in the tree, which is as
before everywhere else and is stored, and reading the file prints the lines. -/
structure HasWritten (d : Dispatcher) (file : String) (ls : List String) (e f : Environment) :
    Prop where
  /-- The tree is another one, it was stored, and a line was printed. -/
  frame : f = { e with
    files := e.files.withTree f.files.root
    session := e.session.print ("wrote " ++ pathOf e file) }
  stored : f.files.storage.text? treeKey = some f.files.root.encode
  /-- The tree has the new file. -/
  root : ∃ stamps, f.files.root.flat =
    Function.update e.files.root.flat (Path.segments (pathOf e file))
      (some (.file (Text.unlines ls) stamps))
  content : f.files.read? (pathOf e file) = some (Text.unlines ls)
  read : (read.job d [file]).run.run f =
    (.ok (), { f with session := ls.foldl Session.print f.session })

/-- Another tree and one more line on the screen do not change what an argument means. -/
theorem pathOf_written (e : Environment) (root : Node) (line file : String) :
    pathOf { e with files := e.files.withTree root, session := e.session.print line } file =
      pathOf e file := by
  obtain ⟨huser, hcwd⟩ := e.session.print_place line
  show e.files.resolve (e.session.print line).user (e.session.print line).cwd file = pathOf e file
  rw [huser, hcwd, pathOf]

/-- The lines that an edit has come to are found again in the text that they are joined to. -/
theorem lines_edited {content place line : String} {ls : List String} (hline : '\n' ∉ line.toList)
    (hedit : Text.editLines? (Text.lines content) place line = some ls) :
    Text.lines (Text.unlines ls) = ls := by
  -- lines of the old text and the empty ones in between have no line feed, and neither has the new
  refine Text.lines_unlines (List.ne_nil_of_mem (Text.mem_editLines? hedit)) fun l hl => ?_
  rcases Text.mem_of_editLines? hedit hl with hold | rfl | rfl
  · exact Text.no_newline_of_mem_lines hold
  · exact hline
  · exact List.not_mem_nil

/-- Where a file can be written, an edit writes the lines it comes to. -/
theorem write_hasWritten (d : Dispatcher) {file place : String} {words ls : List String}
    {e : Environment}
    (hparent : e.files.root.flat.isDirAt (Path.segments (pathOf e file)).dropLast = true)
    (hnotDir : e.files.root.flat.isDirAt (Path.segments (pathOf e file)) = false)
    (hsave : e.files.storage.refused? .save treeKey = none)
    (hline : '\n' ∉ (Text.join ' ' words).toList)
    (hedit : Text.editLines? (linesAt e (pathOf e file)) place (Text.join ' ' words) = some ls) :
    ∃ f, (write.job d (file :: place :: words)).run.run e = (.ok (), f) ∧
      HasWritten d file ls e f := by
  obtain ⟨stamps, hspec⟩ := PathMap.exists_write hparent hnotDir e.files.now (Text.unlines ls)
  have hrealizes := FileSystem.commit_realizes hsave
    (Node.flat_putFile e.files.now (Path.segments (pathOf e file)) (Text.unlines ls) e.files.root)
  rw [hspec] at hrealizes
  obtain ⟨root, hroot, hanswer⟩ := hrealizes
  let f : Environment := { e with
    files := e.files.withTree root
    session := e.session.print ("wrote " ++ pathOf e file) }
  -- the place is resolved once; what is printed afterwards does not change where the file is
  have hrun : (write.job d (file :: place :: words)).run.run e = (.ok (), f) := by
    rw [run_write, hedit, run_writeAt]
    dsimp only [FileSystem.writeFile]
    rw [hanswer]
  have hcontent : f.files.read? (pathOf e file) = some (Text.unlines ls) := by
    rw [FileSystem.read?_eq, show f.files.root.flat = _ from hroot, Function.update_self]
    rfl
  have hread : (read.job d [file]).run.run f =
      (.ok (), { f with session := ls.foldl Session.print f.session }) := by
    rw [run_read, run_readAt, show pathOf f file = pathOf e file from pathOf_written e root _ file,
      hcontent]
    dsimp only
    rw [lines_edited hline hedit]
  exact ⟨f, hrun,
    { frame := rfl
      stored := Storage.text?_saved_self _ _ _
      root := ⟨stamps, hroot⟩
      content := hcontent
      read := hread }⟩

/-- Writing at `+` adds a line, and writing at the number of a line replaces that line, with empty
lines in front of it where there were none. At any other place nothing is done. -/
theorem write_edits_one_line (d : Dispatcher) (file place : String) (words : List String)
    (e : Environment) :
    let path := pathOf e file
    let old := linesAt e path
    let line := Text.join ' ' words
    let run := (write.job d (file :: place :: words)).run.run e
    (e.files.root.flat.isDirAt (Path.segments path).dropLast = true →
      e.files.root.flat.isDirAt (Path.segments path) = false →
      e.files.storage.refused? .save treeKey = none → '\n' ∉ line.toList →
        (place = "+" → ∃ f, run = (.ok (), f) ∧ HasWritten d file (old ++ [line]) e f) ∧
        ∀ n, Text.Counts place n →
          ∃ new f, Text.Replaced old n line new ∧ run = (.ok (), f) ∧ HasWritten d file new e f) ∧
      (place ≠ "+" → (∀ n, ¬ Text.Counts place n) →
        run = (.error (.command "invalid line"), e)) := by
  intro path old line run
  refine ⟨fun hparent hnotDir hsave hline => ⟨?_, fun n hn => ?_⟩, fun hplus hnumber => ?_⟩
  · rintro rfl
    exact write_hasWritten d hparent hnotDir hsave hline (if_pos rfl)
  · obtain ⟨f, hrun, hwritten⟩ := write_hasWritten d hparent hnotDir hsave hline
      (Text.editLines?_of_counts hn old line)
    exact ⟨_, f, Text.replaceLine_replaced hn.pos old line, hrun, hwritten⟩
  · have hnone := Text.editLines?_eq_none hplus hnumber old line
    show (write.job d (file :: place :: words)).run.run e = _
    rw [run_write, show Text.editLines? (linesAt e (pathOf e file)) place _ = none from hnone,
      run_writeAt]

/-- A session in the directory of a file with two lines. -/
def drafting : Environment where
  session := { Session.ofSettings {} [] with screen := Screen.ofSize 2 60 [], cwd := "/notes" }
  files :=
    { root := .dir [("notes", .dir [("f", .file "a\nb" (Node.stampedAt 0))] (Node.stampedAt 0))]
        (Node.stampedAt 0)
      bookmarks := [], storage := {}, now := 5, options := {} }

/-- The file of the example is found by a relative path. -/
theorem pathOf_drafting : pathOf drafting "./f" = "/notes/f" := by
  decide

/-- The file of the example has two lines. -/
theorem linesAt_drafting : linesAt drafting (pathOf drafting "./f") = ["a", "b"] := by
  rw [pathOf_drafting]
  decide

theorem isDirAt_drafting :
    drafting.files.root.flat.isDirAt (Path.segments (pathOf drafting "./f")).dropLast = true ∧
      drafting.files.root.flat.isDirAt (Path.segments (pathOf drafting "./f")) = false := by
  rw [pathOf_drafting]
  decide

/-- A sign and a zero in front make no difference to the number. -/
theorem counts_five : Text.Counts "+05" 5 :=
  ⟨by decide, by decide, 1, Or.inr (by decide)⟩

/-- The first number that does not fit into 64 bits is no line number. -/
theorem not_counts_two_pow_64 (n : Nat) : ¬ Text.Counts "18446744073709551616" n := by
  have hnone : Text.lineNumber? "18446744073709551616" = none := by decide
  intro h
  cases hnone.symm.trans (Text.lineNumber?_eq_some_iff.2 h)

/-- A line is added; the fifth line is written, which is behind the end, and whose number has a sign
and a zero in front; and one line more than can be counted is refused. -/
theorem write_edits_one_line_three_places :
    let d : Dispatcher := { helpLines := [], run := fun _ => pure [] }
    drafting.files.root.flat.isDirAt (Path.segments (pathOf drafting "./f")).dropLast = true ∧
      drafting.files.root.flat.isDirAt (Path.segments (pathOf drafting "./f")) = false ∧
      drafting.files.storage.refused? .save treeKey = none ∧
      '\n' ∉ (Text.join ' ' ["new", "line"]).toList ∧ Text.Counts "+05" 5 ∧
      (∃ f, (write.job d ["./f", "+", "new", "line"]).run.run drafting = (.ok (), f) ∧
        HasWritten d "./f" ["a", "b", "new line"] drafting f) ∧
      (∃ f, (write.job d ["./f", "+05", "new", "line"]).run.run drafting = (.ok (), f) ∧
        HasWritten d "./f" ["a", "b", "", "", "new line"] drafting f ∧
        f.files.read? "/notes/f" = some "a\nb\n\n\nnew line") ∧
      (write.job d ["./f", "18446744073709551616", "new", "line"]).run.run drafting =
        (.error (.command "invalid line"), drafting) := by
  intro d
  obtain ⟨hparent, hnotDir⟩ := isDirAt_drafting
  have hsave : drafting.files.storage.refused? .save treeKey = none := rfl
  have hline : '\n' ∉ (Text.join ' ' ["new", "line"]).toList := by decide
  have hadded := ((write_edits_one_line d "./f" "+" ["new", "line"] drafting).1 hparent hnotDir
    hsave hline).1 rfl
  rw [linesAt_drafting] at hadded
  obtain ⟨new, f, hreplaced, hrun, hwritten⟩ :=
    ((write_edits_one_line d "./f" "+05" ["new", "line"] drafting).1 hparent hnotDir hsave hline).2
      5 counts_five
  rw [linesAt_drafting] at hreplaced
  have hnew : new = ["a", "b", "", "", "new line"] :=
    hreplaced.unique (Text.replaceLine_replaced counts_five.pos _ _)
  rw [hnew] at hwritten
  have hcontent := hwritten.content
  have hunlines : Text.unlines ["a", "b", "", "", "new line"] = "a\nb\n\n\nnew line" := by decide
  rw [pathOf_drafting, hunlines] at hcontent
  have hrefused := (write_edits_one_line d "./f" "18446744073709551616" ["new", "line"] drafting).2
    (by decide) not_counts_two_pow_64
  exact ⟨hparent, hnotDir, hsave, hline, counts_five, hadded, ⟨f, hrun, hwritten, hcontent⟩,
    hrefused⟩

end Commands

end SimTerm

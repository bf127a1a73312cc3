import SimTerm.Proofs.FileSystem.Atomic
import SimTerm.Proofs.Shell.Output

/-!
# Jobs that back out

A job that fails may have printed something before, but it should have done nothing else: it *backs
out*. Three kinds of jobs go together to make one. A job that *spares* everything but the screen may
fail at any moment; one that changes more is to fail only where the change is taken back, as the
calls of the file system are; and what comes after such a change must not fail at all. The rules
below take a job apart in these three.
-/

namespace SimTerm

/-- Nothing has changed but the screen, and what is said of the output elsewhere: in the captures
and in the log. -/
structure Environment.SameButScreen (e f : Environment) : Prop where
  files : e.files.SameState f.files
  clipboard : f.clipboard = e.clipboard
  cwd : f.session.cwd = e.session.cwd
  previousDir : f.session.previousDir = e.session.previousDir
  history : f.session.history = e.session.history
  editor : f.session.editor = e.session.editor

namespace Environment.SameButScreen

theorem refl (e : Environment) : e.SameButScreen e :=
  ⟨FileSystem.SameState.refl e.files, rfl, rfl, rfl, rfl, rfl⟩

/-- What is the same but for the screen after each of two parts is so after both. -/
theorem trans {e f g : Environment} (hef : e.SameButScreen f) (hfg : f.SameButScreen g) :
    e.SameButScreen g where
  files := ⟨hfg.files.root.trans hef.files.root, hfg.files.bookmarks.trans hef.files.bookmarks,
    hfg.files.texts.trans hef.files.texts⟩
  clipboard := hfg.clipboard.trans hef.clipboard
  cwd := hfg.cwd.trans hef.cwd
  previousDir := hfg.previousDir.trans hef.previousDir
  history := hfg.history.trans hef.history
  editor := hfg.editor.trans hef.editor

theorem printed (e : Environment) (line : String) : e.SameButScreen (e.printed line) := by
  have hprint : (e.printed line).session = e.session.print line := rfl
  rw [Session.print_eq, Session.foldl_putRow_eq] at hprint
  refine ⟨FileSystem.SameState.refl e.files, rfl, ?_, ?_, ?_, ?_⟩ <;> rw [hprint] <;> rfl

theorem captured (e : Environment) : e.SameButScreen e.captured :=
  ⟨FileSystem.SameState.refl e.files, rfl, rfl, rfl, rfl, rfl⟩

theorem uncaptured (e : Environment) : e.SameButScreen e.uncaptured := by
  have hend : e.uncaptured.session = e.session.endCapture.2 := rfl
  rw [endCapture_eq] at hend
  refine ⟨FileSystem.SameState.refl e.files, rfl, ?_, ?_, ?_, ?_⟩ <;> rw [hend]

end Environment.SameButScreen

open Environment (SameButScreen)

/-! ## Computations that spare everything but the screen -/

namespace Shell

/-- The computation changes nothing but the screen. -/
def Spares (x : Shell α) : Prop :=
  Keeps SameButScreen x

theorem spares_pure (a : α) : Spares (pure a : Shell α) :=
  fun e => SameButScreen.refl e

theorem spares_get : Spares (get : Shell Environment) :=
  fun e => SameButScreen.refl e

/-- Two computations that change nothing but the screen do so together. -/
theorem spares_bind {x : Shell α} {f : α → Shell β} (hx : Spares x) (hf : ∀ a, Spares (f a)) :
    Spares (x >>= f) :=
  fun e => (hx e).trans (hf (x.run e).1 (x.run e).2)

theorem spares_print (line : String) : Spares (print line) :=
  fun e => SameButScreen.printed e line

/-- Printing lines changes the screen, by induction on the lines. -/
theorem spares_printAll (lines : List String) : Spares (printAll lines) := by
  induction lines with
  | nil => exact spares_pure ()
  | cons line lines ih => exact spares_bind (spares_print line) fun _ => ih

theorem spares_resolve (input : String) : Spares (resolve input) :=
  spares_bind spares_get fun _ => spares_pure _

theorem spares_targetOrHere (args : List String) : Spares (targetOrHere args) := by
  cases args with
  | nil => exact spares_bind spares_get fun _ => spares_pure _
  | cons input args => exact spares_resolve input

end Shell

namespace Job

/-- What follows a job that ended well goes on from there with its value. -/
theorem run_bind_of_ok {x : Job α} {f : α → Job β} {e g : Environment} {a : α}
    (h : x.run.run e = (.ok a, g)) : (x >>= f).run.run e = (f a).run.run g :=
  Shell.run_bind_of_run (f := ExceptT.bindCont f) h

/-- What follows a job that failed is not run. -/
theorem run_bind_of_error {x : Job α} {f : α → Job β} {e g : Environment} {failure : Failure}
    (h : x.run.run e = (.error failure, g)) : (x >>= f).run.run e = (.error failure, g) :=
  Shell.run_bind_of_run (f := ExceptT.bindCont f) h

/-- The job changes nothing but the screen, however it ends. -/
def Spares (x : Job α) : Prop :=
  Shell.Spares x.run

/-- A computation that changes nothing but the screen is a job that does so. -/
theorem spares_lift {x : Shell α} (h : Shell.Spares x) : Spares (liftM x : Job α) :=
  h

theorem spares_pure (a : α) : Spares (pure a : Job α) :=
  fun e => SameButScreen.refl e

theorem spares_throw (failure : Failure) : Spares (throw failure : Job α) :=
  fun e => SameButScreen.refl e

theorem spares_fail (words : String) : Spares (fail words : Job α) :=
  spares_throw _

theorem spares_get : Spares (get : Job Environment) :=
  fun e => SameButScreen.refl e

/-- Two jobs that change nothing but the screen do so together, whether or not the first fails. -/
theorem spares_bind {x : Job α} {f : α → Job β} (hx : Spares x) (hf : ∀ a, Spares (f a)) :
    Spares (x >>= f) := by
  refine Shell.spares_bind (f := ExceptT.bindCont f) hx fun result => ?_
  cases result with
  | ok a => exact hf a
  | error failure => exact Shell.spares_pure _

/-- Failing for want of a value changes nothing. -/
theorem spares_orFail (words : String) (a? : Option α) : Spares (orFail words a?) := by
  cases a? with
  | none => exact spares_fail words
  | some a => exact spares_pure a

theorem spares_print (line : String) : Spares (liftM (Shell.print line) : Job Unit) :=
  spares_lift (Shell.spares_print line)

theorem spares_printAll (lines : List String) :
    Spares (liftM (Shell.printAll lines) : Job Unit) :=
  spares_lift (Shell.spares_printAll lines)

/-- Naming a target, or failing without one, changes nothing. -/
theorem spares_target (args : List String) (missing : String) : Spares (target args missing) := by
  cases args with
  | nil => exact spares_fail missing
  | cons input args => exact spares_lift (Shell.spares_resolve input)

/-! ## Jobs that do not fail -/

/-- The job does not fail. -/
def Succeeds (x : Job α) : Prop :=
  ∀ e, ∃ a, (x.run.run e).1 = .ok a

/-- A computation that cannot fail is a job that does not. -/
theorem succeeds_lift (x : Shell α) : Succeeds (liftM x : Job α) :=
  fun e => ⟨(x.run e).1, rfl⟩

/-- Two jobs that do not fail do not fail together. -/
theorem succeeds_bind {x : Job α} {f : α → Job β} (hx : Succeeds x) (hf : ∀ a, Succeeds (f a)) :
    Succeeds (x >>= f) := by
  intro e
  obtain ⟨a, ha⟩ := hx e
  rw [run_bind_of_ok (Prod.ext ha rfl)]
  exact hf a _

/-! ## Jobs that back out -/

/-- If the job fails, it has changed nothing but the screen. -/
def BacksOut (x : Job α) : Prop :=
  ∀ e failure, e.files.bookmarks.Sorted → (x.run.run e).1 = .error failure →
    e.SameButScreen (x.run.run e).2

/-- A job that changes nothing but the screen backs out. -/
theorem Spares.backsOut {x : Job α} (h : Spares x) : BacksOut x :=
  fun e _ _ _ => h e

/-- A job that does not fail has nothing to back out of. -/
theorem Succeeds.backsOut {x : Job α} (h : Succeeds x) : BacksOut x := by
  intro e failure _ hfailed
  obtain ⟨a, ha⟩ := h e
  rw [ha] at hfailed
  cases hfailed

/-- What comes first spares everything, so it is the rest that has to back out. -/
theorem Spares.bind_backsOut {x : Job α} {f : α → Job β} (hx : Spares x)
    (hf : ∀ a, BacksOut (f a)) : BacksOut (x >>= f) := by
  intro e failure hsorted hfailed
  have hfirst := hx e
  rcases hrun : x.run.run e with ⟨result, g⟩
  rw [hrun] at hfirst
  cases result with
  | ok a =>
    rw [run_bind_of_ok hrun] at hfailed ⊢
    exact hfirst.trans (hf a g failure (hfirst.files.bookmarks ▸ hsorted) hfailed)
  | error failure' =>
    rw [run_bind_of_error hrun]
    exact hfirst

/-- What comes last does not fail, so if there is a failure it is that of the first. -/
theorem BacksOut.bind_succeeds {x : Job α} {f : α → Job β} (hx : BacksOut x)
    (hf : ∀ a, Succeeds (f a)) : BacksOut (x >>= f) := by
  intro e failure hsorted hfailed
  rcases hrun : x.run.run e with ⟨result, g⟩
  cases result with
  | ok a =>
    obtain ⟨b, hb⟩ := hf a g
    rw [run_bind_of_ok hrun, hb] at hfailed
    cases hfailed
  | error failure' =>
    have hfirst := hx e failure' hsorted (congrArg Prod.fst hrun)
    rw [run_bind_of_error hrun]
    rwa [hrun] at hfirst

/-- A change of the files backs out if a failure leaves their state as it was. -/
theorem backsOut_onFiles {change : FileSystem → Except Failure Unit × FileSystem}
    (h : ∀ (fs : FileSystem) (failure : Failure), fs.bookmarks.Sorted →
      (change fs).1 = .error failure → fs.SameState (change fs).2) : BacksOut (onFiles change) := by
  intro e failure hsorted hfailed
  rw [run_onFiles] at hfailed ⊢
  exact ⟨h e.files failure hsorted hfailed, rfl, rfl, rfl, rfl, rfl⟩

/-- A commit takes back what it cannot store. -/
theorem backsOut_commit (edit : FileSystem → Node → Except FileError Node) :
    BacksOut (onFiles fun fs => fs.commit (edit fs)) :=
  backsOut_onFiles fun _ _ _ hfailed => FileSystem.commit_sameState hfailed

/-- So does a change of the bookmarks. -/
theorem backsOut_bookmarks {c : FileSystem.Change} (hmarks : c.ofBookmarks = true) :
    BacksOut (onFiles (·.change c)) := by
  refine backsOut_onFiles fun fs failure hsorted hfailed => ?_
  rcases FileSystem.change_bookmarks_cases hsorted hmarks with ⟨_, -, heq⟩ | ⟨_, -, heq⟩
  · rw [heq]
    exact FileSystem.SameState.refused fs
  · rw [heq] at hfailed
    cases hfailed

end Job

end SimTerm

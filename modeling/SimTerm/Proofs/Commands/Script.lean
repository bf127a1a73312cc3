import SimTerm.Proofs.Commands.Steps

/-!
# What a script comes to

A script is refused before it begins, or its lines are run one script deeper: `run_script`. Each of
its lines is charged to the budget and shown as the input before it is run, and the first line that
cannot be charged ends the script: `run_runScript_cons`. However the lines end, the depth is the
earlier one afterwards.
-/

namespace SimTerm

namespace Environment

/-- The environment with one more script in progress. -/
def deeper (e : Environment) : Environment :=
  { e with scriptDepth := e.scriptDepth + 1 }

/-- The environment with one script in progress less. -/
def shallower (e : Environment) : Environment :=
  { e with scriptDepth := e.scriptDepth - 1 }

/-- The environment in which a script line is run: it is charged and shown as the input. -/
def lineBegun (e : Environment) (line : String) : Environment :=
  { e with linesLeft := e.linesLeft - 1, session := e.session.echo line }

end Environment

namespace Commands

/-- The failure of a script that runs out of lines. -/
def outOfLines : Failure :=
  .command ("script line budget of " ++ toString maxScriptLines ++ " exhausted")

/-- The lines of the script at a path, or why they are not run. -/
def scriptAt (e : Environment) (path : String) : Except Failure (List String) :=
  match e.files.read? path with
  | none => .error (.command ("no such file: " ++ path))
  | some source =>
    if maxScriptDepth ≤ e.scriptDepth then
      .error (.command ("scripts nested deeper than " ++ toString maxScriptDepth))
    else if maxScriptLines < (scriptLines source).length then
      .error (.command ("script longer than " ++ toString maxScriptLines ++ " lines: " ++ path))
    else .ok (scriptLines source)

/-- The lines that the arguments ask to be run as a script, or why they are not. -/
def scriptToRun (e : Environment) : List String → Except Failure (List String)
  | "run" :: file :: _ => scriptAt e (e.files.resolve e.session.user e.session.cwd file)
  | _ => .error (.command "usage: cmd run <file>")

/-- A script that is run leaves room for itself, and its lines are those of a file. -/
theorem scriptToRun_eq_ok {e : Environment} {args lines : List String}
    (h : scriptToRun e args = .ok lines) :
    e.scriptDepth < maxScriptDepth ∧
      ∃ path source, e.files.read? path = some source ∧ lines = scriptLines source := by
  have hpath : ∀ path, scriptAt e path = .ok lines → e.scriptDepth < maxScriptDepth ∧
      ∃ path source, e.files.read? path = some source ∧ lines = scriptLines source := by
    intro path hat
    unfold scriptAt at hat
    split at hat
    · cases hat
    · next source hsource =>
      split at hat
      · cases hat
      · next hdepth =>
        split at hat
        · cases hat
        · exact ⟨Nat.lt_of_not_le hdepth, path, source, hsource, (Except.ok.inj hat).symm⟩
  unfold scriptToRun at h
  split at h
  · exact hpath _ h
  · cases h

/-- Run the script at a path, unless there is a reason against it. -/
def runScriptAt (d : Dispatcher) (path : String) (e : Environment) : Job Unit := do
  let source ← Job.orFail ("no such file: " ++ path) (e.files.read? path)
  if maxScriptDepth ≤ e.scriptDepth then
    Job.fail ("scripts nested deeper than " ++ toString maxScriptDepth)
  else
    let lines := scriptLines source
    if maxScriptLines < lines.length then
      Job.fail ("script longer than " ++ toString maxScriptLines ++ " lines: " ++ path)
    else oneDeeper (runScript d lines)

/-- Running a script at a path comes to what is found there: a reason not to run it, or its lines.
-/
theorem run_runScriptAt (d : Dispatcher) (path : String) (e : Environment) :
    (runScriptAt d path e).run.run e =
      match scriptAt e path with
      | .error failure => (.error failure, e)
      | .ok lines => (oneDeeper (runScript d lines)).run.run e := by
  unfold runScriptAt scriptAt
  cases e.files.read? path with
  | none => rfl
  | some source =>
    -- the depth is looked at first, and then the length
    simp only [Job.orFail, pure_bind]
    by_cases hdepth : maxScriptDepth ≤ e.scriptDepth
    · rw [if_pos hdepth, if_pos hdepth]
      rfl
    · rw [if_neg hdepth, if_neg hdepth]
      by_cases hlength : maxScriptLines < (scriptLines source).length
      · rw [if_pos hlength, if_pos hlength]
        rfl
      · rw [if_neg hlength, if_neg hlength]

/-- A script is refused and nothing happens, or its lines are run one script deeper. -/
theorem run_script (d : Dispatcher) (args : List String) (e : Environment) :
    (script.job d args).run.run e =
      match scriptToRun e args with
      | .error failure => (.error failure, e)
      | .ok lines => (oneDeeper (runScript d lines)).run.run e := by
  have hresolve : ∀ (file : String) (next : String → Environment → Job Unit),
      ((Shell.resolve file : Job String) >>= fun path => get >>= next path).run.run e =
        (next (e.files.resolve e.session.user e.session.cwd file) e).run.run e :=
    fun file next => Job.run_resolve_bind file (fun path => get >>= next path) e
  unfold script
  dsimp only
  split
  · next file _ => exact (hresolve file (runScriptAt d)).trans (run_runScriptAt d _ e)
  · next hargs =>
    rw [scriptToRun.eq_2 e args hargs]
    rfl

/-- However a job one script deeper ends, there is one script less afterwards. -/
theorem run_oneDeeper (job : Job Unit) (e : Environment) :
    (oneDeeper job).run.run e =
      ((job.run.run e.deeper).1, (job.run.run e.deeper).2.shallower) :=
  rfl

/-- Without budget the script ends; with budget its first line is run, and then the others. -/
theorem run_runScript_cons (d : Dispatcher) (line : String) (lines : List String)
    (e : Environment) :
    (runScript d (line :: lines)).run.run e =
      if e.linesLeft = 0 then (.error outOfLines, e)
      else (runScript d lines).run.run ((d.run line).run (e.lineBegun line)).2 := by
  have hjob : (runScript d (line :: lines)).run.run e =
      (if e.linesLeft = 0 then
        Job.fail ("script line budget of " ++ toString maxScriptLines ++ " exhausted")
      else do
        modify fun e => { e with linesLeft := e.linesLeft - 1 }
        Shell.onSession (·.echo line)
        let _ ← (d.run line : Shell (List Outcome))
        runScript d lines : Job Unit).run.run e := rfl
  rw [hjob]
  by_cases hspent : e.linesLeft = 0
  · rw [if_pos hspent, if_pos hspent]
    rfl
  · rw [if_neg hspent, if_neg hspent]
    rfl

end Commands

end SimTerm

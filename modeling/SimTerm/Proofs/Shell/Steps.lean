import SimTerm.Proofs.FileSystem.Calls
import SimTerm.Shell.Registry

/-!
# The steps of a shell

Whatever a command does to its environment it does by small steps: a line is printed, a script line
is shown, the file system is called, and so on. `CommandStep` lists them; a line also sets the input
and puts captures around its commands. What is kept by every step is a relation between environments
that is `CommandClosed`, and `LineClosed` if it is kept by lines too.

A command is `Stepwise` if it does nothing but take steps and run lines. A line of a registry whose
commands are stepwise keeps whatever is kept by every step, however deeply lines run lines:
`executeWithin_keeps`.
-/

namespace SimTerm

/-- One thing that a running command does. -/
inductive CommandStep : Environment → Environment → Prop
  | print (e : Environment) (line : String) :
      CommandStep e { e with session := e.session.print line }
  | echo (e : Environment) (line : String) :
      CommandStep e { e with session := e.session.echo line }
  | paste (e : Environment) (text : String) (h : e.clipboard.read = .ok (some text)) :
      CommandStep e { e with session := e.session.paste text }
  | clearScreen (e : Environment) : CommandStep e { e with session := e.session.clearScreen }
  | changeDir (e : Environment) (path : String) :
      CommandStep e { e with session := e.session.changeDir path }
  | files (e : Environment) (call : FileSystem.Call) :
      CommandStep e { e with files := (e.files.perform call).2 }
  | clip (e : Environment) (text : String) (clipboard : Clipboard)
      (h : e.clipboard.write text = .ok clipboard) : CommandStep e { e with clipboard }
  | reboot (e : Environment) : CommandStep e { e with toMachine := e.toMachine.reboot }
  | charge (e : Environment) : CommandStep e { e with linesLeft := e.linesLeft - 1 }
  | deeper (e : Environment) : CommandStep e { e with scriptDepth := e.scriptDepth + 1 }
  | shallower (e : Environment) : CommandStep e { e with scriptDepth := e.scriptDepth - 1 }

namespace Environment

/-- The environment with one more capture. -/
def captured (e : Environment) : Environment :=
  { e with session := e.session.beginCapture }

/-- The environment without the capture begun last. -/
def uncaptured (e : Environment) : Environment :=
  { e with session := e.session.endCapture.2 }

/-- The environment after a line was printed. -/
def printed (e : Environment) (line : String) : Environment :=
  { e with session := e.session.print line }

end Environment

/-- Every environment that commands lead to from another is in this relation to it. -/
class CommandClosed (R : Environment → Environment → Prop) : Prop where
  refl (e : Environment) : R e e
  trans {e f g : Environment} (hef : R e f) (hfg : R f g) : R e g
  step {e f : Environment} (h : CommandStep e f) : R e f

/-- Every environment that lines lead to from another is in this relation to it. -/
class LineClosed (R : Environment → Environment → Prop) : Prop extends CommandClosed R where
  stdin (e : Environment) (stdin : String) : R e { e with stdin }
  capture {e f : Environment} (h : R e.captured f) : R e f.uncaptured

variable {R : Environment → Environment → Prop}

namespace Shell

/-- What follows a computation goes on from where it ended, with its value. -/
theorem run_bind_of_run {x : Shell α} {f : α → Shell β} {e e' : Environment} {a : α}
    (h : x.run e = (a, e')) : (x >>= f).run e = (f a).run e' := by
  rw [StateT.run_bind, h]
  rfl

/-- Printing lines is printing them one after the other in the session. -/
theorem run_printAll (lines : List String) (e : Environment) :
    (printAll lines).run e = ((), { e with session := lines.foldl Session.print e.session }) := by
  induction lines generalizing e with
  | nil => rfl
  | cons line lines ih =>
    have hprint : (print line).run e = ((), e.printed line) := rfl
    rw [printAll, run_bind_of_run hprint, ih]
    rfl

/-- The computation leads to environments in the relation only. -/
def Keeps (R : Environment → Environment → Prop) (x : Shell α) : Prop :=
  ∀ e, R e (x.run e).2

section

variable [CommandClosed R]

theorem keeps_pure (a : α) : Keeps R (pure a : Shell α) :=
  fun e => CommandClosed.refl e

theorem keeps_get : Keeps R (get : Shell Environment) :=
  fun e => CommandClosed.refl e

/-- Two computations that keep a relation keep it together. -/
theorem keeps_bind {x : Shell α} {f : α → Shell β} (hx : Keeps R x) (hf : ∀ a, Keeps R (f a)) :
    Keeps R (x >>= f) :=
  fun e => CommandClosed.trans (hx e) (hf (x.run e).1 (x.run e).2)

/-- A step keeps every relation that steps keep. -/
theorem keeps_modify {change : Environment → Environment}
    (h : ∀ e, CommandStep e (change e)) : Keeps R (modify change : Shell PUnit) :=
  fun e => CommandClosed.step (h e)

theorem keeps_print (line : String) : Keeps R (print line) :=
  keeps_modify fun e => .print e line

theorem keeps_printAll (lines : List String) : Keeps R (printAll lines) := by
  induction lines with
  | nil => exact keeps_pure ()
  | cons line lines ih => exact keeps_bind (keeps_print line) fun _ => ih

/-- Reading the session to make a path takes no step. -/
theorem keeps_resolve (input : String) : Keeps R (resolve input) :=
  keeps_bind keeps_get fun _ => keeps_pure _

end

end Shell

namespace Job

/-- The job leads to environments in the relation only, however it ends. -/
def Keeps (R : Environment → Environment → Prop) (x : Job α) : Prop :=
  Shell.Keeps R x.run

/-- A computation that keeps a relation is a job that keeps it. -/
theorem keeps_lift {x : Shell α} (h : Shell.Keeps R x) : Keeps R (liftM x : Job α) :=
  h

/-- A job that goes on from the environment it was started in. -/
theorem keeps_get_bind {f : Environment → Job α} (h : ∀ e, R e ((f e).run.run e).2) :
    Keeps R (get >>= f) :=
  h

/-- A computation that is lifted ends well, with its value. -/
theorem run_lift (x : Shell α) (e : Environment) :
    (liftM x : Job α).run.run e = (.ok (x.run e).1, (x.run e).2) :=
  rfl

theorem run_get_bind (next : Environment → Job α) (e : Environment) :
    (get >>= next : Job α).run.run e = (next e).run.run e :=
  rfl

/-- A job that starts with a path goes on with what the path means where the session stands. -/
theorem run_resolve_bind (input : String) (next : String → Job α) (e : Environment) :
    ((Shell.resolve input : Job String) >>= next).run.run e =
      (next (e.files.resolve e.session.user e.session.cwd input)).run.run e :=
  rfl

theorem run_orFail_some (words : String) (a : α) (e : Environment) :
    (orFail words (some a)).run.run e = (.ok a, e) :=
  rfl

/-- What a call of the file system comes to: its result, and the files after it in either case. -/
theorem run_onFiles (change : FileSystem → Except Failure Unit × FileSystem) (e : Environment) :
    (onFiles change).run.run e = ((change e.files).1, { e with files := (change e.files).2 }) := by
  rcases hchange : change e.files with ⟨result, files⟩
  have hrun : (onFiles change).run.run e = (onFiles fun _ => (result, files)).run.run e := by
    rw [← hchange]
    rfl
  rw [hrun]
  cases result <;> rfl

section

variable [CommandClosed R]

theorem keeps_pure (a : α) : Keeps R (pure a : Job α) :=
  fun e => CommandClosed.refl e

theorem keeps_throw (failure : Failure) : Keeps R (throw failure : Job α) :=
  fun e => CommandClosed.refl e

theorem keeps_fail (words : String) : Keeps R (fail words : Job α) :=
  keeps_throw _

theorem keeps_get : Keeps R (get : Job Environment) :=
  fun e => CommandClosed.refl e

/-- Two jobs that keep a relation keep it together, whether or not the first fails. -/
theorem keeps_bind {x : Job α} {f : α → Job β} (hx : Keeps R x) (hf : ∀ a, Keeps R (f a)) :
    Keeps R (x >>= f) := by
  refine Shell.keeps_bind (f := ExceptT.bindCont f) hx fun result => ?_
  cases result with
  | ok a => exact hf a
  | error failure => exact Shell.keeps_pure _

theorem keeps_orFail (words : String) (a? : Option α) : Keeps R (orFail words a?) := by
  cases a? with
  | none => exact keeps_fail words
  | some a => exact keeps_pure a

theorem keeps_print (line : String) : Keeps R (liftM (Shell.print line) : Job Unit) :=
  keeps_lift (Shell.keeps_print line)

theorem keeps_printAll (lines : List String) :
    Keeps R (liftM (Shell.printAll lines) : Job Unit) :=
  keeps_lift (Shell.keeps_printAll lines)

/-- A call of the file system is a step. -/
theorem keeps_onFiles {change : FileSystem → Except Failure Unit × FileSystem}
    (h : ∀ fs : FileSystem, ∃ call, (change fs).2 = (fs.perform call).2) :
    Keeps R (onFiles change) := by
  intro e
  obtain ⟨call, hcall⟩ := h e.files
  rw [run_onFiles, hcall]
  exact CommandClosed.step (.files e call)

end

end Job

/-- The command takes steps and runs lines, and does nothing else. -/
def Command.Stepwise (c : Command) : Prop :=
  ∀ (R : Environment → Environment → Prop) [CommandClosed R] (d : Dispatcher) (args : List String),
    (∀ line, Shell.Keeps R (d.run line)) → Job.Keeps R (c.job d args)

/-! ## Lines -/

namespace Registry

/-- Every command of the registry takes steps and runs lines, and does nothing else. -/
def Stepwise (reg : Registry) : Prop :=
  ∀ name c, reg.get? name = some c → c.Stepwise

/-- What a stage comes to when its command, run in a capture, has come to this. -/
def concluded (name : String) : Except Failure Unit × Environment → Outcome × Environment
  | (.ok (), f) => (⟨name, true, Text.unlines f.session.endCapture.1⟩, f.uncaptured)
  | (.error failure, f) =>
    (⟨name, false, Text.unlines f.session.endCapture.1⟩,
      f.uncaptured.printed (name ++ ": " ++ failure.message))

/-- Running a command is running its job in a capture and concluding from how it ended. -/
theorem run_runCommand (c : Command) (d : Dispatcher) (name : String) (args : List String)
    (e : Environment) :
    (runCommand c d name args).run e = concluded name ((c.job d args).run.run e.captured) := by
  have hbegin : (Shell.onSession Session.beginCapture).run e = ((), e.captured) := rfl
  rcases hjob : (c.job d args).run.run e.captured with ⟨result, f⟩
  unfold runCommand
  rw [Shell.run_bind_of_run hbegin, Shell.run_bind_of_run hjob]
  cases result <;> rfl

variable [LineClosed R] {reg : Registry} {d : Dispatcher}

/-- A command keeps what its job keeps: the capture around it is made of steps. -/
theorem runCommand_keeps {c : Command} {args : List String} (h : Job.Keeps R (c.job d args))
    (name : String) : Shell.Keeps R (runCommand c d name args) := by
  intro e
  have hcapture := LineClosed.capture (h e.captured)
  rw [run_runCommand]
  rcases hjob : (c.job d args).run.run e.captured with ⟨result, f⟩
  rw [hjob] at hcapture
  cases result with
  | ok u => exact hcapture
  | error failure => exact CommandClosed.trans hcapture (CommandClosed.step (.print _ _))

/-- A stage keeps what commands and the lines inside them keep. -/
theorem runStage_keeps (hreg : reg.Stepwise) (hd : ∀ line, Shell.Keeps R (d.run line))
    (stage : String) : Shell.Keeps R (reg.runStage d stage) := by
  unfold runStage
  split
  · exact Shell.keeps_pure _
  · next name args heq =>
    cases hc : reg.get? name with
    | none => exact Shell.keeps_bind (Shell.keeps_print _) fun _ => Shell.keeps_pure _
    | some c => exact runCommand_keeps (hreg name c hc R d args hd) name

/-- Giving an input to a stage is a step. -/
theorem keeps_setStdin (stdin : String) :
    Shell.Keeps R (modify fun e => { e with stdin } : Shell PUnit) :=
  fun e => LineClosed.stdin e stdin

/-- Stages keep what each of them keeps, by induction on the stages. -/
theorem runStages_keeps (hreg : reg.Stepwise) (hd : ∀ line, Shell.Keeps R (d.run line))
    (stdin : String) (stages : List String) : Shell.Keeps R (reg.runStages d stdin stages) := by
  induction stages generalizing stdin with
  | nil => exact Shell.keeps_pure _
  | cons stage rest ih =>
    refine Shell.keeps_bind (keeps_setStdin stdin) fun _ => ?_
    refine Shell.keeps_bind (runStage_keeps hreg hd stage) fun outcome => ?_
    split
    · exact Shell.keeps_bind (ih outcome.output) fun _ => Shell.keeps_pure _
    · exact Shell.keeps_pure _

/-- Parts keep what each of them keeps, by induction on the parts. -/
theorem runParts_keeps (hreg : reg.Stepwise) (hd : ∀ line, Shell.Keeps R (d.run line))
    (parts : List String) : Shell.Keeps R (reg.runParts d parts) := by
  induction parts with
  | nil => exact Shell.keeps_pure _
  | cons part rest ih =>
    refine Shell.keeps_bind (runStages_keeps hreg hd "" _) fun outcomes => ?_
    exact Shell.keeps_bind ih fun _ => Shell.keeps_pure _

/-- A line keeps what commands and the lines inside them keep. -/
theorem runLine_keeps (hreg : reg.Stepwise) (hd : ∀ line, Shell.Keeps R (d.run line))
    (line : String) : Shell.Keeps R (reg.runLine d line) := by
  refine Shell.keeps_bind Shell.keeps_get fun e => ?_
  refine Shell.keeps_bind (runParts_keeps hreg hd _) fun outcomes => ?_
  exact Shell.keeps_bind (keeps_setStdin e.stdin) fun _ => Shell.keeps_pure _

/-- A line keeps what every step keeps, by induction on how deep lines may run lines. -/
theorem executeWithin_keeps (hreg : reg.Stepwise) (depth : Nat) (line : String) :
    Shell.Keeps R (reg.executeWithin depth line) := by
  induction depth generalizing line with
  | zero => exact Shell.keeps_pure _
  | succ depth ih => exact runLine_keeps hreg ih line

/-- An entered line keeps what commands keep. -/
theorem execute_keeps (hreg : reg.Stepwise) (line : String) :
    Shell.Keeps R (reg.execute line) :=
  executeWithin_keeps hreg nesting line

end Registry

end SimTerm

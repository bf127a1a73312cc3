import SimTerm.Proofs.Shell.Steps
import SimTerm.Text.LineEdit

/-!
# What ordinary commands keep up

Most commands do little: they print, clear the screen, go to another directory, change the files or
fill the clipboard. `OrdinaryStep` lists what such a command does, and says of which directory,
which content and which target of a bookmark it may be told.

An `Upkeep` is something that holds of environments, together with what it grants of the arguments
of commands, of paths, and of the contents of files. It is `Sound` if every ordinary step keeps it
and if whatever it grants follows: a path that an argument means is granted if the argument is. The
rules below take a command apart, as far as its result may matter to what comes after it.
-/

namespace SimTerm

/-- One thing that an ordinary command does, with granted paths and contents only. -/
inductive OrdinaryStep (path content : String → Prop) : Environment → Environment → Prop
  | print (e : Environment) (line : String) :
      OrdinaryStep path content e { e with session := e.session.print line }
  | clearScreen (e : Environment) :
      OrdinaryStep path content e { e with session := e.session.clearScreen }
  | changeDir (e : Environment) {dir : String} (h : path dir) :
      OrdinaryStep path content e { e with session := e.session.changeDir dir }
  | files (e : Environment) {c : FileSystem.Change} (h : c.Granted path content) :
      OrdinaryStep path content e { e with files := (e.files.change c).2 }
  | clip (e : Environment) (text : String) (clipboard : Clipboard)
      (h : e.clipboard.write text = .ok clipboard) :
      OrdinaryStep path content e { e with clipboard }

/-- An ordinary step is a step of a command. -/
theorem OrdinaryStep.commandStep {path content : String → Prop} {e f : Environment}
    (h : OrdinaryStep path content e f) : CommandStep e f := by
  cases h with
  | print line => exact .print e line
  | clearScreen => exact .clearScreen e
  | @changeDir dir _ => exact .changeDir e dir
  | @files c _ => exact .files e (.change c)
  | clip text clipboard hwrite => exact .clip e text clipboard hwrite

/-- Something that holds of environments, and what it grants of texts. -/
structure Upkeep where
  holds : Environment → Prop
  /-- What is granted of the arguments of commands. -/
  arg : String → Prop
  /-- What is granted of the paths that sessions and bookmarks have. -/
  path : String → Prop
  /-- What is granted of the contents of files. -/
  content : String → Prop

namespace Upkeep

/-- Ordinary steps keep the upkeep, and it grants all the paths and contents that commands make of
granted arguments. -/
structure Sound (U : Upkeep) : Prop where
  step {e f : Environment} (h : OrdinaryStep U.path U.content e f) (he : U.holds e) : U.holds f
  homeSign : U.arg "~"
  here {e : Environment} (he : U.holds e) : U.path e.session.cwd
  previous {e : Environment} (he : U.holds e) : U.path (e.session.previousDir.getD "/")
  resolved {e : Environment} (he : U.holds e) {input : String} (hinput : U.arg input) :
    U.path (e.files.resolve e.session.user e.session.cwd input)
  edited {e : Environment} (he : U.holds e) (path place : String) {words ls : List String}
    (hwords : ∀ word ∈ words, U.arg word)
    (hls : Text.editLines? (Text.lines ((e.files.read? path).getD "")) place
      (Text.join ' ' words) = some ls) : U.content (Text.unlines ls)

/-- What every ordinary step keeps, of whatever paths and contents, is a sound upkeep that grants
everything. -/
theorem sound_of_steps {I : Environment → Prop}
    (hstep : ∀ e f, OrdinaryStep (fun _ => True) (fun _ => True) e f → I e → I f) :
    Sound ⟨I, fun _ => True, fun _ => True, fun _ => True⟩ where
  step h he := hstep _ _ h he
  homeSign := trivial
  here _ := trivial
  previous _ := trivial
  resolved _ _ _ := trivial
  edited _ _ _ _ _ _ _ := trivial

end Upkeep

variable {U : Upkeep}

namespace Shell

/-- From environments where the upkeep holds the computation leads to others where it holds, and its
value has the property. -/
def Upholds (U : Upkeep) (Q : α → Prop) (x : Shell α) : Prop :=
  ∀ e, U.holds e → Q (x.run e).1 ∧ U.holds (x.run e).2

theorem upholds_pure {Q : α → Prop} {a : α} (h : Q a) : Upholds U Q (pure a : Shell α) :=
  fun _ he => ⟨h, he⟩

/-- What is known of one value may be used for the next computation. -/
theorem upholds_bind {x : Shell α} {f : α → Shell β} {Q : α → Prop} {Q' : β → Prop}
    (hx : Upholds U Q x) (hf : ∀ a, Q a → Upholds U Q' (f a)) : Upholds U Q' (x >>= f) :=
  fun e he => hf (x.run e).1 (hx e he).1 (x.run e).2 (hx e he).2

/-- A change that keeps the upkeep keeps it as a computation. -/
theorem upholds_modify {change : Environment → Environment}
    (h : ∀ e, U.holds e → U.holds (change e)) :
    Upholds U (fun _ => True) (modify change : Shell PUnit) :=
  fun e he => ⟨trivial, h e he⟩

theorem upholds_print (hU : U.Sound) (line : String) : Upholds U (fun _ => True) (print line) :=
  upholds_modify fun e he => hU.step (.print e line) he

theorem upholds_printAll (hU : U.Sound) (lines : List String) :
    Upholds U (fun _ => True) (printAll lines) := by
  induction lines with
  | nil => exact upholds_pure trivial
  | cons line lines ih => exact upholds_bind (upholds_print hU line) fun _ _ => ih

/-- A path that is made from a granted argument is granted. -/
theorem upholds_resolve (hU : U.Sound) {input : String} (h : U.arg input) :
    Upholds U U.path (resolve input) :=
  fun _ he => ⟨hU.resolved he h, he⟩

/-- A path that is named by granted arguments is granted, and so is the working directory. -/
theorem upholds_targetOrHere (hU : U.Sound) {args : List String} (h : ∀ a ∈ args, U.arg a) :
    Upholds U U.path (targetOrHere args) := by
  cases args with
  | nil => exact fun _ he => ⟨hU.here he, he⟩
  | cons input args => exact upholds_resolve hU (h input List.mem_cons_self)

end Shell

namespace Job

/-- From environments where the upkeep holds the job leads to others where it holds, however it
ends, and its value, if it has one, has the property. -/
def Upholds (U : Upkeep) (Q : α → Prop) (x : Job α) : Prop :=
  Shell.Upholds U (fun result => ∀ a, result = .ok a → Q a) x.run

/-- A computation that keeps the upkeep is a job that keeps it. -/
theorem upholds_lift {x : Shell α} {Q : α → Prop} (h : Shell.Upholds U Q x) :
    Upholds U Q (liftM x : Job α) := by
  intro e he
  refine ⟨fun a ha => ?_, (h e he).2⟩
  obtain rfl : (x.run e).1 = a := Except.ok.inj ha
  exact (h e he).1

theorem upholds_pure {Q : α → Prop} {a : α} (h : Q a) : Upholds U Q (pure a : Job α) :=
  Shell.upholds_pure fun _ ha => Except.ok.inj ha ▸ h

/-- A failure has no value and changes nothing. -/
theorem upholds_fail {Q : α → Prop} (words : String) : Upholds U Q (fail words : Job α) :=
  Shell.upholds_pure fun _ ha => nomatch ha

/-- The environment that is read is one where the upkeep holds. -/
theorem upholds_get : Upholds U U.holds (get : Job Environment) :=
  fun _ he => ⟨fun _ ha => Except.ok.inj ha ▸ he, he⟩

/-- A job that goes on from the environment it was started in. -/
theorem upholds_get_bind {f : Environment → Job α} {Q : α → Prop}
    (h : ∀ e, U.holds e →
      (∀ a, ((f e).run.run e).1 = .ok a → Q a) ∧ U.holds ((f e).run.run e).2) :
    Upholds U Q (get >>= f) :=
  h

/-- What is known of the value of one job may be used for the next. -/
theorem upholds_bind {x : Job α} {f : α → Job β} {Q : α → Prop} {Q' : β → Prop}
    (hx : Upholds U Q x) (hf : ∀ a, Q a → Upholds U Q' (f a)) : Upholds U Q' (x >>= f) := by
  refine Shell.upholds_bind (f := ExceptT.bindCont f) hx fun result hresult => ?_
  cases result with
  | ok a => exact hf a (hresult a rfl)
  | error failure => exact Shell.upholds_pure fun _ ha => nomatch ha

/-- What is known of a value if there is one is known of it after failing without. -/
theorem upholds_orFail {Q : α → Prop} (words : String) {a? : Option α}
    (h : ∀ a, a? = some a → Q a) :
    Upholds U Q (orFail words a?) := by
  cases a? with
  | none => exact upholds_fail words
  | some a => exact upholds_pure (h a rfl)

theorem upholds_print (hU : U.Sound) (line : String) :
    Upholds U (fun _ => True) (liftM (Shell.print line) : Job Unit) :=
  upholds_lift (Shell.upholds_print hU line)

theorem upholds_printAll (hU : U.Sound) (lines : List String) :
    Upholds U (fun _ => True) (liftM (Shell.printAll lines) : Job Unit) :=
  upholds_lift (Shell.upholds_printAll hU lines)

theorem upholds_target (hU : U.Sound) {args : List String} (h : ∀ a ∈ args, U.arg a)
    (missing : String) : Upholds U U.path (target args missing) := by
  cases args with
  | nil => exact upholds_fail missing
  | cons input args => exact upholds_lift (Shell.upholds_resolve hU (h input List.mem_cons_self))

/-- A change of granted paths and contents is an ordinary step. -/
theorem upholds_onFiles (hU : U.Sound) {c : FileSystem.Change} (h : c.Granted U.path U.content) :
    Upholds U (fun _ => True) (onFiles (·.change c)) := by
  intro e he
  rw [run_onFiles]
  exact ⟨fun _ _ => trivial, hU.step (.files e h) he⟩

end Job

/-- The command keeps up whatever ordinary steps keep up, if its arguments are granted. -/
def Command.Ordinary (c : Command) : Prop :=
  ∀ (U : Upkeep) (_ : U.Sound) (d : Dispatcher) (args : List String),
    (∀ a ∈ args, U.arg a) → Job.Upholds U (fun _ => True) (c.job d args)

/-- An ordinary command takes steps and does nothing else. -/
theorem Command.Ordinary.stepwise {c : Command} (h : c.Ordinary) : c.Stepwise := by
  intro R _ d args _ e
  have hsound : Upkeep.Sound ⟨R e, fun _ => True, fun _ => True, fun _ => True⟩ :=
    Upkeep.sound_of_steps fun f g hfg hf =>
      CommandClosed.trans hf (CommandClosed.step hfg.commandStep)
  exact (h _ hsound d args (fun _ _ => trivial) e (CommandClosed.refl e)).2

end SimTerm

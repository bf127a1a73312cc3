import SimTerm.Proofs.Commands.Ordinary
import SimTerm.Proofs.Entries.Order
import SimTerm.Shell.Recipe

/-!
# Commands take steps

Every built-in command takes steps and runs lines, and does nothing else, and so does every command
that is described by data. So every line of the built-in registry keeps what every step keeps.
-/

namespace SimTerm

namespace Commands

open Job

variable {R : Environment → Environment → Prop} [CommandClosed R]

/-! ## System commands -/

/-- The lines of a script, one after the other, by induction on the lines still to run. -/
theorem keeps_runScript {d : Dispatcher} (hd : ∀ line, Shell.Keeps R (d.run line))
    (lines : List String) : Job.Keeps R (runScript d lines) := by
  induction lines with
  | nil => exact keeps_pure ()
  | cons line lines ih =>
    refine keeps_bind keeps_get fun e => ?_
    by_cases hspent : e.linesLeft = 0
    · simp only [if_pos hspent]
      exact keeps_fail _
    · simp only [if_neg hspent]
      refine keeps_bind (keeps_lift (Shell.keeps_modify fun e => .charge e)) fun _ => ?_
      refine keeps_bind (keeps_lift (Shell.keeps_modify fun e => .echo e line)) fun _ => ?_
      exact keeps_bind (keeps_lift (hd line)) fun _ => ih

/-- What a job keeps is kept one script deeper as well. -/
theorem keeps_oneDeeper {job : Job Unit} (h : Job.Keeps R job) :
    Job.Keeps R (oneDeeper job) :=
  Shell.keeps_bind (Shell.keeps_modify fun e => .deeper e) fun _ =>
    Shell.keeps_bind h fun _ =>
      Shell.keeps_bind (Shell.keeps_modify fun e => .shallower e) fun _ =>
        Shell.keeps_pure _

/-- A script runs lines and writes nothing itself but the counters and the echoed lines. -/
theorem script_stepwise : script.Stepwise := by
  intro R _ d args hd
  unfold script
  dsimp only
  split
  · next file _ =>
    refine keeps_bind (keeps_lift (Shell.keeps_resolve file)) fun path => ?_
    refine keeps_bind keeps_get fun e => ?_
    refine keeps_bind (keeps_orFail _ _) fun source => ?_
    split
    · exact keeps_fail _
    · split
      · exact keeps_fail _
      · exact keeps_oneDeeper (keeps_runScript hd _)
  · exact keeps_fail _

/-- A paste takes one step, if there is something to paste. -/
theorem paste_stepwise : paste.Stepwise := by
  intro R _ d args _
  refine keeps_get_bind fun e => ?_
  cases hread : e.clipboard.read with
  | error failure => exact CommandClosed.refl e
  | ok text? =>
    cases text? with
    | none => exact CommandClosed.refl e
    | some text => exact CommandClosed.step (.paste e text hread)

theorem keeps_rebootMachine : Job.Keeps R (liftM rebootMachine : Job Unit) :=
  keeps_lift (Shell.keeps_modify fun e => .reboot e)

theorem reboot_stepwise : reboot.Stepwise := fun _ _ _ _ _ =>
  keeps_rebootMachine

theorem reset_stepwise : reset.Stepwise := fun _ _ _ _ _ =>
  keeps_bind (keeps_print _) fun _ =>
    keeps_bind (keeps_onFiles fun _ => ⟨.reset, rfl⟩) fun _ => keeps_rebootMachine

/-- Every built-in command takes steps and runs lines, and does nothing else. -/
theorem all_stepwise : ∀ c ∈ all, c.Stepwise := by
  intro c hc
  rcases ordinary_or hc with hordinary | rfl | rfl | rfl | rfl
  · exact hordinary.stepwise
  · exact script_stepwise
  · exact paste_stepwise
  · exact reboot_stepwise
  · exact reset_stepwise

end Commands

/-! ## Commands described by data -/

namespace Recipe

open Job

variable {R : Environment → Environment → Prop} [CommandClosed R]

/-- Show the arguments if the recipe asks for it. -/
def showing (r : Recipe) (args : List String) : Job Unit :=
  if r.showArgs then Shell.printAll (args.map fun a => "<" ++ a ++ ">") else pure ()

/-- Mark the lines of the input if the recipe asks for it. -/
def tagging (r : Recipe) : Job Unit :=
  match r.tag with
  | some tag => do Shell.printAll ((inputLines (← get).stdin).map (tag ++ ·))
  | none => pure ()

/-- Run a line if the recipe asks for it. -/
def running (r : Recipe) (d : Dispatcher) : Job Unit :=
  match r.line with
  | some line => runAndReport d line
  | none => pure ()

/-- Fail if the recipe asks for it. -/
def ending (r : Recipe) : Job Unit :=
  match r.failure with
  | some words => fail words
  | none => pure ()

/-- The job of a recipe is made of five parts, each of which may be left out. -/
theorem job_command (r : Recipe) (d : Dispatcher) (args : List String) :
    r.command.job d args = (do
      Shell.printAll r.lines
      r.showing args
      r.tagging
      r.running d
      r.ending : Job Unit) := by
  -- each of the four optional parts is there or is `pure ()`
  unfold command showing tagging running ending
  cases r.showArgs <;> cases r.tag <;> cases r.line <;> cases r.failure <;>
    simp only [Bool.false_eq_true, if_false, if_true, pure_bind, bind_assoc]

/-- Running a line and printing what became of it keeps what the line keeps. -/
theorem keeps_runAndReport {d : Dispatcher} (hd : ∀ line, Shell.Keeps R (d.run line))
    (line : String) : Shell.Keeps R (runAndReport d line) :=
  Shell.keeps_bind Shell.keeps_get fun _ => Shell.keeps_bind (hd line) fun _ =>
    Shell.keeps_bind Shell.keeps_get fun _ => Shell.keeps_print _

/-- A command described by data takes steps and runs lines, and does nothing else. -/
theorem command_stepwise (r : Recipe) : r.command.Stepwise := by
  intro R _ d args hd
  have hshowing : Job.Keeps R (r.showing args) := by
    unfold showing
    split
    · exact keeps_printAll _
    · exact keeps_pure ()
  have htagging : Job.Keeps R r.tagging := by
    unfold tagging
    split
    · exact keeps_bind keeps_get fun _ => keeps_printAll _
    · exact keeps_pure ()
  have hrunning : Job.Keeps R (r.running d) := by
    unfold running
    split
    · exact keeps_lift (keeps_runAndReport hd _)
    · exact keeps_pure ()
  have hending : Job.Keeps R r.ending := by
    unfold ending
    split
    · exact keeps_fail _
    · exact keeps_pure ()
  rw [job_command]
  exact keeps_bind (keeps_printAll _) fun _ => keeps_bind hshowing fun _ =>
    keeps_bind htagging fun _ => keeps_bind hrunning fun _ => hending

end Recipe

/-! ## The registry -/

namespace Registry

/-- A registered command is one of those that were registered, under its own name. -/
theorem mem_of_get?_registerAll {cs : List Command} {name : String} {c : Command}
    (h : Entries.get? name (registerAll [] cs) = some c) : c ∈ cs ∧ c.name = name := by
  have hfold : ∀ (cs : List Command) (reg : Registry), ∀ e ∈ registerAll reg cs,
      e ∈ reg ∨ (e.2 ∈ cs ∧ e.2.name = e.1) := by
    intro cs
    induction cs with
    | nil => exact fun reg e he => Or.inl he
    | cons first cs ih =>
      intro reg e he
      rcases ih (reg.register first) e he with hreg | ⟨hcs, hname⟩
      · rcases Entries.mem_insert hreg with rfl | hreg
        · exact Or.inr ⟨List.mem_cons_self, rfl⟩
        · exact Or.inl hreg
      · exact Or.inr ⟨List.mem_cons_of_mem first hcs, hname⟩
  rcases hfold cs [] (name, c) (Entries.mem_of_get? h) with hnil | hcs
  · cases hnil
  · exact hcs

/-- A name that no later command has stands for what it stood for. -/
theorem get?_registerAll_of_not_mem {cs : List Command} {name : String} (reg : Registry)
    (h : name ∉ cs.map Command.name) :
    Entries.get? name (registerAll reg cs) = Entries.get? name reg := by
  induction cs generalizing reg with
  | nil => rfl
  | cons first cs ih =>
    rw [List.map_cons, List.mem_cons, not_or] at h
    have hrest := ih (reg.register first) h.2
    rw [register, Entries.get?_insert_of_ne h.1] at hrest
    exact hrest

/-- Commands with different names are all found under their names. -/
theorem get?_registerAll {cs : List Command} (hnames : (cs.map Command.name).Nodup) {c : Command}
    (h : c ∈ cs) : Entries.get? c.name (registerAll [] cs) = some c := by
  suffices hfold : ∀ reg : Registry, Entries.get? c.name (registerAll reg cs) = some c from hfold []
  induction cs with
  | nil => cases h
  | cons first cs ih =>
    intro reg
    obtain ⟨hfirst, hrest⟩ := List.nodup_cons.1 hnames
    rcases List.mem_cons.1 h with rfl | hmem
    · refine (get?_registerAll_of_not_mem (reg.register c) hfirst).trans ?_
      exact Entries.get?_insert_self _ _ _
    · exact ih hrest hmem (reg.register first)

end Registry

namespace Commands

/-- A name stands for the built-in command that has it. -/
theorem get?_registry {name : String} {c : Command} :
    Entries.get? name registry = some c ↔ c ∈ all ∧ c.name = name := by
  refine ⟨Registry.mem_of_get?_registerAll, ?_⟩
  rintro ⟨hmem, rfl⟩
  exact Registry.get?_registerAll (by decide) hmem

/-- So does every command of the built-in registry. -/
theorem registry_stepwise : Registry.Stepwise registry := by
  intro name c hc
  exact all_stepwise c (get?_registry.1 hc).1

end Commands

end SimTerm

import SimTerm.Proofs.Commands.Script
import SimTerm.Proofs.Shell.Dispatch

/-!
# Stages of built-in commands

A stage comes to what the command that it names comes to in a capture. What that is for scripts and
for pastes is said here by equations; for a stage that runs no script, an `Upkeep` tells what is
kept by it: `Upkeep.Seamless.runStage`.
-/

namespace SimTerm

open Commands

/-- A stage comes to what the command that it names comes to in a capture. -/
theorem run_runStage_of_name (d : Dispatcher) {stage : String} {args : List String} {c : Command}
    (hmem : c ∈ all) (htokens : Line.tokens stage = c.name :: args) (e : Environment) :
    (registry.runStage d stage).run e =
      Registry.concluded c.name ((c.job d args).run.run e.captured) := by
  have hget : Entries.get? c.name registry = some c := get?_registry.2 ⟨hmem, rfl⟩
  unfold Registry.runStage
  rw [htokens]
  dsimp only
  rw [hget]
  exact Registry.run_runCommand c d c.name args e

/-! ## Scripts -/

/-- The lines of the script that a stage runs, if it runs one. -/
def Commands.scriptOf? (stage : String) (e : Environment) : Option (List String) :=
  match Line.tokens stage with
  | "cmd" :: args => (scriptToRun e args).toOption
  | _ => none

/-- A stage with a script to run is one of the command that runs scripts. -/
theorem scriptOf?_eq_some {stage : String} {e : Environment} {lines : List String}
    (h : scriptOf? stage e = some lines) :
    ∃ args, Line.tokens stage = "cmd" :: args ∧ scriptToRun e args = .ok lines := by
  unfold scriptOf? at h
  split at h
  · next args htokens =>
    refine ⟨args, htokens, ?_⟩
    cases hrun : scriptToRun e args with
    | error failure =>
      rw [hrun] at h
      cases h
    | ok ls =>
      rw [hrun] at h
      exact congrArg Except.ok (Option.some.inj h)
  · cases h

/-- A script that is named but not run is refused. -/
theorem exists_refusal {stage : String} {e : Environment} {args : List String}
    (h : scriptOf? stage e = none) (htokens : Line.tokens stage = "cmd" :: args) :
    ∃ failure, scriptToRun e args = .error failure := by
  rw [scriptOf?, htokens] at h
  cases hrun : scriptToRun e args with
  | error failure => exact ⟨failure, rfl⟩
  | ok lines =>
    simp only [hrun] at h
    cases h

/-- A stage that runs a script comes to what the lines of the script come to. -/
theorem run_runStage_script (d : Dispatcher) {stage : String} {args lines : List String}
    {e : Environment} (htokens : Line.tokens stage = "cmd" :: args)
    (hlines : scriptToRun e args = .ok lines) :
    (registry.runStage d stage).run e =
      Registry.concluded "cmd" (((runScript d lines).run.run e.captured.deeper).1,
        ((runScript d lines).run.run e.captured.deeper).2.shallower) := by
  have hmem : script ∈ all := by simp [all, system]
  have hcaptured : scriptToRun e.captured args = .ok lines := hlines
  rw [run_runStage_of_name d hmem htokens, run_script, hcaptured]
  exact congrArg _ (run_oneDeeper _ _)

/-! ## Pastes -/

/-- The environment after a text was pasted. -/
def Environment.pasted (e : Environment) (text : String) : Environment :=
  { e with session := e.session.paste text }

/-- A paste depends on the clipboard only: it is denied, empty, or holds a text. -/
theorem run_paste (d : Dispatcher) (args : List String) (e : Environment) :
    (paste.job d args).run.run e =
      match e.clipboard with
      | .denied => (.error Clipboard.deniedFailure, e)
      | .holding none => (.error (.command "no clipboard data"), e)
      | .holding (some text) => (.ok (), e.pasted text) := by
  unfold paste
  dsimp only
  rw [Job.run_get_bind]
  cases e.clipboard with
  | denied => rfl
  | holding text? => cases text? <;> rfl

/-- A paste fails and changes nothing, or inserts what is in the clipboard. -/
theorem runStage_paste_cases {d : Dispatcher} {stage : String} {args : List String}
    {e f : Environment} {outcome : Outcome} (htokens : Line.tokens stage = "paste" :: args)
    (hrun : (registry.runStage d stage).run e = (outcome, f)) :
    (∃ failure, Registry.concluded "paste" (.error failure, e.captured) = (outcome, f)) ∨
      ∃ text, e.clipboard = .holding (some text) ∧
        Registry.concluded "paste" (.ok (), e.captured.pasted text) = (outcome, f) := by
  have hmem : paste ∈ all := by simp [all, system]
  have hcaptured : e.captured.clipboard = e.clipboard := rfl
  rw [run_runStage_of_name d hmem htokens, run_paste, hcaptured] at hrun
  cases hclipboard : e.clipboard with
  | denied =>
    rw [hclipboard] at hrun
    exact Or.inl ⟨_, hrun⟩
  | holding text? =>
    rw [hclipboard] at hrun
    cases text? with
    | none => exact Or.inl ⟨_, hrun⟩
    | some text => exact Or.inr ⟨text, rfl, hrun⟩

/-! ## Stages that run no script -/

namespace Upkeep

/-- The upkeep does not mind captures. -/
structure Seamless (U : Upkeep) : Prop extends U.Sound where
  captured {e : Environment} (he : U.holds e) : U.holds e.captured
  uncaptured {e : Environment} (he : U.holds e) : U.holds e.uncaptured

/-- Booting the machine again keeps the upkeep too. -/
structure Bootable (U : Upkeep) : Prop extends U.Seamless where
  reboot {e : Environment} (he : U.holds e) : U.holds { e with toMachine := e.toMachine.reboot }
  reset {e : Environment} (he : U.holds e) : U.holds { e with files := e.files.reset.2 }

variable {U : Upkeep} {d : Dispatcher} {stage : String} {e : Environment}

/-- What is captured and printed around a command keeps the upkeep. -/
theorem Seamless.concluded (hU : U.Seamless) (he : U.holds e) (name : String)
    (result : Except Failure Unit) : U.holds (Registry.concluded name (result, e)).2 := by
  cases result with
  | ok u => exact hU.uncaptured he
  | error failure => exact hU.step (.print _ _) (hU.uncaptured he)

/-- A stage that runs no script keeps what its command keeps. -/
theorem Seamless.runStage (hU : U.Seamless) (hscript : scriptOf? stage e = none)
    (hcommand : ∀ c args, c ∈ all → Line.tokens stage = c.name :: args → c ≠ script →
      Job.Upholds U (fun _ => True) (c.job d args))
    (he : U.holds e) : U.holds ((registry.runStage d stage).run e).2 := by
  have hcaptured := hU.captured he
  unfold Registry.runStage
  cases htokens : Line.tokens stage with
  | nil => exact he
  | cons name args =>
    dsimp only
    cases hname : Entries.get? name registry with
    | none => exact hU.step (.print _ _) he
    | some c =>
      obtain ⟨hmem, rfl⟩ := get?_registry.1 hname
      dsimp only
      rw [Registry.run_runCommand]
      by_cases hc : c = script
      · -- a script that is not run changes nothing
        subst hc
        obtain ⟨failure, hfailure⟩ := exists_refusal hscript htokens
        have hrefused : scriptToRun e.captured args = .error failure := hfailure
        rw [run_script, hrefused]
        exact hU.concluded hcaptured _ _
      · exact hU.concluded (hcommand c args hmem htokens hc e.captured hcaptured).2 _ _

/-- Every built-in command keeps the upkeep that neither runs scripts nor pastes. -/
theorem Bootable.command (hU : U.Bootable) {c : Command} (hmem : c ∈ all) (hscript : c ≠ script)
    (hpaste : c ≠ paste) {args : List String} (hargs : ∀ a ∈ args, U.arg a) :
    Job.Upholds U (fun _ => True) (c.job d args) := by
  have hboot : Job.Upholds U (fun _ => True) (liftM rebootMachine : Job Unit) :=
    Job.upholds_lift (Shell.upholds_modify fun _ he => hU.reboot he)
  rcases ordinary_or hmem with hordinary | rfl | rfl | rfl | rfl
  · exact hordinary U hU.toSound d args hargs
  · exact absurd rfl hscript
  · exact absurd rfl hpaste
  · exact hboot
  · have hreset : Job.Upholds U (fun _ => True) (Job.onFiles FileSystem.reset) := by
      intro e he
      rw [Job.run_onFiles]
      exact ⟨fun _ _ => trivial, hU.reset he⟩
    exact Job.upholds_bind (Job.upholds_print hU.toSound _) fun _ _ =>
      Job.upholds_bind hreset fun _ _ => hboot

/-- A stage that neither runs a script nor pastes keeps the upkeep, if its tokens are granted. -/
theorem Bootable.runStage (hU : U.Bootable) (hscript : scriptOf? stage e = none)
    (hpaste : (Line.tokens stage).head? ≠ some "paste")
    (htokens : ∀ token ∈ Line.tokens stage, U.arg token) (he : U.holds e) :
    U.holds ((registry.runStage d stage).run e).2 := by
  refine hU.toSeamless.runStage hscript (fun c args hmem hstage hc => ?_) he
  have hname : c ≠ paste := by
    rintro rfl
    exact hpaste (by rw [hstage]; rfl)
  refine hU.command hmem hc hname fun a ha => htokens a ?_
  rw [hstage]
  exact List.mem_cons_of_mem c.name ha

end Upkeep

end SimTerm

import SimTerm.Proofs.Session.Captures
import SimTerm.Proofs.Shell.Dispatch

/-!
# What a line prints

A line closes every capture that it opens. The captures that were open before it are open after it,
and each of them has collected what the line printed, however deeply scripts are nested. The output
of a stage is what was printed while its command ran: `execute_captures`.

The commands of the registry need only take steps and run lines. No step of a command touches a
capture but by printing, and around every command a capture is begun and ended.
-/

namespace SimTerm

open Session

/-- Whatever a command does, what it prints is collected by all open captures. -/
theorem commandStep_prints {e f : Environment} (h : CommandStep e f) :
    ∃ lines, e.session.Prints lines f.session := by
  cases h with
  | print line => exact ⟨_, e.session.print_prints line⟩
  | echo line => exact ⟨_, e.session.edit_prints (.echoed line) rfl fun _ => Editor.echo line.toList⟩
  | paste text hread => exact ⟨_, e.session.edit_prints (.pasted text) rfl (·.paste text.toList)⟩
  | clearScreen => exact ⟨_, Prints.quiet [.wiped] rfl rfl rfl⟩
  | reboot => exact e.toMachine.reboot_prints
  | changeDir path => exact ⟨_, Prints.quiet [] rfl rfl rfl⟩
  | files call => exact ⟨_, Prints.quiet [] rfl rfl rfl⟩
  | clip text clipboard hwrite => exact ⟨_, Prints.quiet [] rfl rfl rfl⟩
  | charge => exact ⟨_, Prints.quiet [] rfl rfl rfl⟩
  | deeper => exact ⟨_, Prints.quiet [] rfl rfl rfl⟩
  | shallower => exact ⟨_, Prints.quiet [] rfl rfl rfl⟩

/-- Some lines are printed between one environment and another. -/
def Environment.PrintsTo (e f : Environment) : Prop :=
  ∃ lines, e.session.Prints lines f.session

instance : LineClosed Environment.PrintsTo where
  refl _ := ⟨_, Prints.quiet [] rfl rfl rfl⟩
  trans := by
    rintro e f g ⟨lines, h⟩ ⟨lines', h'⟩
    exact ⟨_, h.trans h'⟩
  step := commandStep_prints
  stdin _ _ := ⟨_, Prints.quiet [] rfl rfl rfl⟩
  capture := by
    rintro e f ⟨lines, h⟩
    exact ⟨lines, h.endCapture.2⟩

/-! ## Stages -/

/-- These lines were printed while the command of the stage ran, and they are its output. Behind
them the stage printed its failure, if it failed, and nothing else. -/
structure StageRun.Printed (r : StageRun) (lines : List String) : Prop where
  output : r.outcome.output = Text.unlines lines
  command : r.before.session.Prints lines r.ended.session
  failure : ∃ message, r.ended.session.Prints
    (if r.outcome.success then [] else [r.outcome.name ++ ": " ++ message]) r.after.session

section Stages

variable {reg : Registry} {d : Dispatcher}

/-- The lines that a command printed are what the capture around it has collected. -/
theorem result_prints (hreg : reg.Stepwise)
    (hd : ∀ line, Shell.Keeps Environment.PrintsTo (d.run line)) {name : String} {c : Command}
    (hname : reg.get? name = some c) {args : List String} {e f : Environment}
    {result : Except Failure Unit} (hjob : StageRun.result d c args e = (result, f)) :
    ∃ lines, f.session.endCapture.1 = lines ∧ e.session.Prints lines f.uncaptured.session := by
  have hkeeps : e.captured.PrintsTo (StageRun.result d c args e).2 :=
    hreg name c hname Environment.PrintsTo d args hd e.captured
  rw [hjob] at hkeeps
  obtain ⟨lines, hlines⟩ := hkeeps
  exact ⟨lines, Prints.endCapture hlines⟩

/-- A stage prints lines, and those that its command printed are its output. -/
theorem StageRun.Ran.printed (hreg : reg.Stepwise)
    (hd : ∀ line, Shell.Keeps Environment.PrintsTo (d.run line)) {r : StageRun}
    (h : r.Ran reg d) : ∃ lines, r.Printed lines := by
  have hsame (e : Environment) : e.session.Prints [] e.session := Prints.quiet [] rfl rfl rfl
  cases h with
  | blank e h => exact ⟨[], rfl, hsame e, "", hsame e⟩
  | @unknown stage name args e h hname =>
    refine ⟨[], rfl, hsame e, "command not found", ?_⟩
    have hline : name ++ ": " ++ "command not found" = name ++ ": command not found" :=
      String.append_assoc
    rw [if_neg Bool.false_ne_true, hline]
    exact print_prints _ _
  | @done stage name args c f e h hname hjob =>
    obtain ⟨lines, hlines, hprints⟩ := result_prints hreg hd hname hjob
    exact ⟨lines, congrArg Text.unlines hlines, hprints, "", hsame _⟩
  | @failed stage name args c failure f e h hname hjob =>
    obtain ⟨lines, hlines, hprints⟩ := result_prints hreg hd hname hjob
    exact ⟨lines, congrArg Text.unlines hlines, hprints, failure.message, print_prints _ _⟩

end Stages

/-! ## Lines -/

namespace Registry

/-- What is run of a line from an environment and comes to this result prints some lines, which all
open captures have collected, and every stage of it has what its command printed as its output. -/
def PrintsLine (reg : Registry) (d : Dispatcher) (line : String) (e : Environment)
    (result : List Outcome × Environment) : Prop :=
  ∃ runs lines, LineRun reg d line e runs result ∧ e.session.Prints lines result.2.session ∧
    ∀ r ∈ runs.flatten, ∃ printed, r.Printed printed

/-- A line prints what its stages print, one after the other, in scripts as well. -/
theorem executeWithin_printsLine {reg : Registry} (hreg : reg.Stepwise) (depth : Nat)
    (line : String) (e : Environment) :
    reg.PrintsLine (reg.dispatcher depth) line e ((reg.executeWithin (depth + 1) line).run e) := by
  have hinner (inner : String) :
      Shell.Keeps Environment.PrintsTo ((reg.dispatcher depth).run inner) :=
    executeWithin_keeps hreg depth inner
  -- what the line prints follows from the steps it takes, and which stages are run from its pieces
  obtain ⟨runs, hruns⟩ := exists_lineRun reg (reg.dispatcher depth) line e
  obtain ⟨lines, hlines⟩ := runLine_keeps hreg hinner line e
  exact ⟨runs, lines, hruns, hlines, fun r hr => (hruns.ran r hr).printed hreg hinner⟩

/-- If the commands of a registry are built in, or at least only take steps and run lines, then a
line leaves as many captures open as it found, each of them with everything that the line printed,
and the output of a stage is what was printed while its command ran. The same holds for the lines
of scripts. -/
theorem execute_captures {reg : Registry}
    (hreg : ∀ name c, reg.get? name = some c → c ∈ Commands.all ∨ c.Stepwise) (line : String)
    (e : Environment) :
    reg.PrintsLine (reg.dispatcher (nesting - 1)) line e ((reg.execute line).run e) ∧
    ∀ depth,
      reg.PrintsLine (reg.dispatcher depth) line e ((reg.executeWithin (depth + 1) line).run e) := by
  have hstepwise : reg.Stepwise := fun name c hc =>
    (hreg name c hc).elim (Commands.all_stepwise c) id
  exact ⟨executeWithin_printsLine hstepwise _ line e,
    fun depth => executeWithin_printsLine hstepwise depth line e⟩

/-- The built-in commands, and one that prints, runs a line, and fails. -/
def withTrial : Registry :=
  registerAll [] (Commands.all ++ [Recipe.command
    { name := "try", usage := "try", description := "try something", lines := ["trying"]
      line := some "nope", failure := some "no luck" }])

/-- The commands of the example are built in or take steps and run lines only. -/
theorem withTrial_stepwise (name : String) (c : Command) (h : withTrial.get? name = some c) :
    c ∈ Commands.all ∨ c.Stepwise := by
  refine (List.mem_append.1 (mem_of_get?_registerAll h).1).imp_right fun htrial => ?_
  rw [List.mem_singleton.1 htrial]
  exact Recipe.command_stepwise _

/-- Two captures are open, one of which has collected a line, and there is a script. -/
def scripted : Environment where
  session := { Session.ofSettings {} [] with
    screen := Screen.ofSize 2 60 [], captures := [[], ["before"]] }
  files := { FileSystem.open {} 0 { user := "guest", bare := true } with
    root := .dir [("s", .file "try\nreboot" (Node.stampedAt 0))] (Node.stampedAt 0) }

/-- The output of a script holds the failures of its own stages, and the stage after it prints all
that again. The failure of a stage is in no output, but the captures that were open have it. -/
theorem execute_captures_script :
    let line := "cmd run /s | cat; nope"
    let result := (withTrial.execute line).run scripted
    let printed := ["trying", "nope: command not found", "ran 0/1 stdin-kept=true", "try: no luck"]
    (∀ name c, withTrial.get? name = some c → c ∈ Commands.all ∨ c.Stepwise) ∧
    withTrial.PrintsLine (withTrial.dispatcher (nesting - 1)) line scripted result ∧
    result.1.map (·.output) = [Text.unlines printed, Text.unlines printed, ""] ∧
    result.2.session.captures =
      let lines := printed ++ printed ++ ["nope: command not found"]
      [lines.reverse, lines.reverse ++ ["before"]] := by
  intro line result printed
  refine ⟨withTrial_stepwise, (execute_captures withTrial_stepwise line scripted).1, ?_⟩
  decide +kernel

end Registry

end SimTerm

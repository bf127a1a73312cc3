import Mathlib.Data.List.Forall2
import SimTerm.Proofs.Commands.Steps

/-!
# What is run of a line

The parts of a line are run in order, all of them. Of a part the stages are run in order up to the
first that fails. The first has no input, and each later one has the output of the one before. A
stage fails if no command has its name or if its command fails, and says so in either case.

`StageRun.Ran` says what one stage does, `PipelineRun` which stages of a part are run and with what
input, and `LineRun` puts the stages of a line one after the other: `execute_dispatches`.
-/

namespace SimTerm

/-- A stage that was run. -/
structure StageRun where
  stage : String
  /-- Where the stage began, with its input. -/
  before : Environment
  /-- Where the command of the stage was over, and the capture around it. -/
  ended : Environment
  /-- Where the stage was over. -/
  after : Environment
  outcome : Outcome

namespace StageRun

variable (reg : Registry) (d : Dispatcher)

/-- What the command with this name and these arguments comes to in a capture. -/
def result (c : Command) (args : List String) (e : Environment) :
    Except Failure Unit × Environment :=
  (c.job d args).run.run e.captured

/-- What a stage does: nothing if it has no tokens; it prints a line if no command has its name;
otherwise the command is run with a capture around it, and a failure is printed after that. -/
inductive Ran : StageRun → Prop
  | blank {stage : String} (e : Environment) (h : Line.tokens stage = []) :
      Ran ⟨stage, e, e, e, ⟨"", true, ""⟩⟩
  | unknown {stage name : String} {args : List String} (e : Environment)
      (h : Line.tokens stage = name :: args) (hname : reg.get? name = none) :
      Ran ⟨stage, e, e, e.printed (name ++ ": command not found"), ⟨name, false, ""⟩⟩
  | done {stage name : String} {args : List String} {c : Command} {f : Environment}
      (e : Environment) (h : Line.tokens stage = name :: args) (hname : reg.get? name = some c)
      (hjob : result d c args e = (.ok (), f)) :
      Ran ⟨stage, e, f.uncaptured, f.uncaptured,
        ⟨name, true, Text.unlines f.session.endCapture.1⟩⟩
  | failed {stage name : String} {args : List String} {c : Command} {failure : Failure}
      {f : Environment} (e : Environment) (h : Line.tokens stage = name :: args)
      (hname : reg.get? name = some c) (hjob : result d c args e = (.error failure, f)) :
      Ran ⟨stage, e, f.uncaptured, f.uncaptured.printed (name ++ ": " ++ failure.message),
        ⟨name, false, Text.unlines f.session.endCapture.1⟩⟩

/-- The stage names no command, or its command fails. -/
def Fails (r : StageRun) : Prop :=
  ∃ name args, Line.tokens r.stage = name :: args ∧
    (reg.get? name = none ∨
      ∃ c failure, reg.get? name = some c ∧ (result d c args r.before).1 = .error failure)

/-- The stages are run one after the other from one environment to another. Between them nothing
changes but the input. -/
def Threaded : Environment → List StageRun → Environment → Prop
  | e, [], last => last = e
  | e, r :: rs, last => (∃ stdin, r.before = { e with stdin }) ∧ Threaded r.after rs last

end StageRun

/-- What is run of some stages with this input: a first stretch of them, up to a failure or to the
end, each stage with the output of the one before. -/
structure PipelineRun (stdin : String) (stages : List String) (rs : List StageRun) : Prop where
  inOrder : rs.map (·.stage) <+: stages
  inputs : rs.map (·.before.stdin) = (stdin :: rs.map (·.outcome.output)).dropLast
  goesOn : ∀ r ∈ rs.dropLast, r.outcome.success = true
  stops : rs.map (·.stage) = stages ∨ ∃ r, rs.getLast? = some r ∧ r.outcome.success = false

/-- What is run of a line from an environment, and what comes of it: for every part the stages that
are run of it, all of them one after the other, each with its outcome. In the end the input is what
it was. -/
structure LineRun (reg : Registry) (d : Dispatcher) (line : String) (e : Environment)
    (runs : List (List StageRun)) (result : List Outcome × Environment) : Prop where
  parts : List.Forall₂ (fun part rs => PipelineRun "" (Line.stages part) rs) (Line.parts line) runs
  ran : ∀ r ∈ runs.flatten, r.Ran reg d
  fails : ∀ r ∈ runs.flatten, (r.outcome.success = false ↔ r.Fails reg d)
  threaded : ∃ last, StageRun.Threaded e runs.flatten last ∧
    result.2 = { last with stdin := e.stdin }
  outcomes : result.1 = runs.flatten.map (·.outcome)

/-- A line leaves the input as it was before. -/
theorem LineRun.stdin_eq {reg : Registry} {d : Dispatcher} {line : String} {e : Environment}
    {runs : List (List StageRun)} {result : List Outcome × Environment}
    (h : LineRun reg d line e runs result) : result.2.stdin = e.stdin := by
  obtain ⟨last, -, hlast⟩ := h.threaded
  rw [hlast]

/-! ## Stages -/

namespace StageRun

variable {reg : Registry} {d : Dispatcher}

/-- A stage that was run is told to have failed exactly if it names no command or its command fails.
-/
theorem Ran.fails_iff {r : StageRun} (h : r.Ran reg d) :
    r.outcome.success = false ↔ r.Fails reg d := by
  cases h with
  | blank e h =>
    refine iff_of_false Bool.noConfusion ?_
    rintro ⟨name, args, htokens, -⟩
    exact List.cons_ne_nil name args (htokens.symm.trans h)
  | @unknown stage name args e h hname => exact iff_of_true rfl ⟨name, args, h, Or.inl hname⟩
  | @done stage name args c f e h hname hjob =>
    refine iff_of_false Bool.noConfusion ?_
    rintro ⟨name', args', htokens, hfails⟩
    -- the tokens give the name, the name gives the command, and its job ended well
    obtain ⟨rfl, rfl⟩ := List.cons.inj (h.symm.trans htokens)
    rcases hfails with hnone | ⟨c', failure, hc', hfailure⟩
    · rw [hname] at hnone
      cases hnone
    · obtain rfl : c = c' := Option.some.inj (hname.symm.trans hc')
      rw [hjob] at hfailure
      cases hfailure
  | @failed stage name args c failure f e h hname hjob =>
    exact iff_of_true rfl ⟨name, args, h, Or.inr ⟨c, failure, hname, congrArg Prod.fst hjob⟩⟩

/-- Stages can be run in two parts. -/
theorem Threaded.append {e f last : Environment} {rs rs' : List StageRun}
    (h : Threaded e rs f) (h' : Threaded f rs' last) : Threaded e (rs ++ rs') last := by
  induction rs generalizing e with
  | nil =>
    have hf : f = e := h
    rw [List.nil_append, ← hf]
    exact h'
  | cons r rs ih => exact ⟨h.1, ih h.2⟩

end StageRun

/-! ## Pipelines -/

namespace PipelineRun

variable {stdin stage : String} {rest : List String} {r : StageRun} {rs : List StageRun}

theorem nil (stdin : String) : PipelineRun stdin [] [] :=
  ⟨List.nil_prefix, rfl, List.forall_mem_nil _, Or.inl rfl⟩

/-- A stage that fails is the last one. -/
theorem singleton (hstage : r.stage = stage) (hstdin : r.before.stdin = stdin)
    (hfails : r.outcome.success = false) : PipelineRun stdin (stage :: rest) [r] where
  inOrder := by
    rw [List.map_singleton, hstage]
    exact List.prefix_append [stage] rest
  inputs := by rw [List.map_singleton, hstdin]; rfl
  goesOn := List.forall_mem_nil _
  stops := Or.inr ⟨r, rfl, hfails⟩

/-- A stage that succeeds is followed by the others. -/
theorem cons (h : PipelineRun r.outcome.output rest rs) (hstage : r.stage = stage)
    (hstdin : r.before.stdin = stdin) (hsuccess : r.outcome.success = true) :
    PipelineRun stdin (stage :: rest) (r :: rs) where
  inOrder := by
    rw [List.map_cons, hstage]
    exact List.cons_prefix_cons.2 ⟨rfl, h.inOrder⟩
  inputs := by
    rw [List.map_cons, h.inputs, hstdin]
    rfl
  goesOn := by
    cases rs with
    | nil => exact List.forall_mem_nil _
    | cons q qs =>
      rw [List.dropLast_cons_cons]
      exact List.forall_mem_cons.2 ⟨hsuccess, h.goesOn⟩
  stops := by
    rcases h.stops with hall | ⟨q, hlast, hfails⟩
    · exact Or.inl (by rw [List.map_cons, hstage, hall])
    · exact Or.inr ⟨q, by rw [List.getLast?_cons, hlast]; rfl, hfails⟩

end PipelineRun

/-! ## Running -/

section Runs

variable (reg : Registry) (d : Dispatcher)

/-- What is run of a stage. -/
theorem exists_stageRun (stage : String) (e : Environment) :
    ∃ r : StageRun, r.stage = stage ∧ r.before = e ∧ r.Ran reg d ∧
      (reg.runStage d stage).run e = (r.outcome, r.after) := by
  unfold Registry.runStage
  cases htokens : Line.tokens stage with
  | nil => exact ⟨_, rfl, rfl, .blank e htokens, rfl⟩
  | cons name args =>
    dsimp only
    cases hname : reg.get? name with
    | none => exact ⟨_, rfl, rfl, .unknown e htokens hname, rfl⟩
    | some c =>
      dsimp only
      rw [Registry.run_runCommand]
      rcases hjob : (c.job d args).run.run e.captured with ⟨result, f⟩
      cases result with
      | ok u => exact ⟨_, rfl, rfl, .done e htokens hname hjob, rfl⟩
      | error failure => exact ⟨_, rfl, rfl, .failed e htokens hname hjob, rfl⟩

/-- The first stage decides by its outcome whether the others are run. -/
theorem run_runStages_cons {stage stdin : String} {rest : List String} {e f : Environment}
    {outcome : Outcome} (h : (reg.runStage d stage).run { e with stdin } = (outcome, f)) :
    (reg.runStages d stdin (stage :: rest)).run e =
      if outcome.success then
        let (outcomes, last) := (reg.runStages d outcome.output rest).run f
        (outcome :: outcomes, last)
      else ([outcome], f) := by
  have hbind : (reg.runStages d stdin (stage :: rest)).run e =
      (reg.runStage d stage >>= fun outcome => do
        if outcome.success then
          return outcome :: (← reg.runStages d outcome.output rest)
        else
          return [outcome] : Shell (List Outcome)).run { e with stdin } := rfl
  rw [hbind, Shell.run_bind_of_run h]
  cases outcome.success <;> rfl

/-- What is run of some stages, by induction on the stages. -/
theorem exists_pipelineRun (stages : List String) (stdin : String) (e : Environment) :
    ∃ (rs : List StageRun) (last : Environment), PipelineRun stdin stages rs ∧
      StageRun.Threaded e rs last ∧ (∀ r ∈ rs, r.Ran reg d) ∧
      (reg.runStages d stdin stages).run e = (rs.map (·.outcome), last) := by
  induction stages generalizing stdin e with
  | nil => exact ⟨[], e, PipelineRun.nil stdin, rfl, List.forall_mem_nil _, rfl⟩
  | cons stage rest ih =>
    obtain ⟨r, hstage, hbefore, hran, hrun⟩ := exists_stageRun reg d stage { e with stdin }
    have hstdin : r.before.stdin = stdin := by rw [hbefore]
    -- whether the other stages are run is up to the outcome of the first
    cases hsuccess : r.outcome.success with
    | false =>
      refine ⟨[r], r.after, PipelineRun.singleton hstage hstdin hsuccess, ⟨⟨stdin, hbefore⟩, rfl⟩,
        List.forall_mem_singleton.2 hran, ?_⟩
      rw [run_runStages_cons reg d hrun, hsuccess]
      rfl
    | true =>
      obtain ⟨rs, last, hpipeline, hthreaded, hrans, hruns⟩ := ih r.outcome.output r.after
      refine ⟨r :: rs, last, hpipeline.cons hstage hstdin hsuccess, ⟨⟨stdin, hbefore⟩, hthreaded⟩,
        List.forall_mem_cons.2 ⟨hran, hrans⟩, ?_⟩
      rw [run_runStages_cons reg d hrun, hsuccess, if_pos rfl, hruns]
      rfl

/-- What is run of some parts, by induction on the parts. -/
theorem exists_runs (parts : List String) (e : Environment) :
    ∃ (runs : List (List StageRun)) (last : Environment),
      List.Forall₂ (fun part rs => PipelineRun "" (Line.stages part) rs) parts runs ∧
      StageRun.Threaded e runs.flatten last ∧ (∀ r ∈ runs.flatten, r.Ran reg d) ∧
      (reg.runParts d parts).run e = (runs.flatten.map (·.outcome), last) := by
  induction parts generalizing e with
  | nil => exact ⟨[], e, .nil, rfl, List.forall_mem_nil _, rfl⟩
  | cons part parts ih =>
    obtain ⟨rs, f, hpipeline, hthreaded, hrans, hrun⟩ :=
      exists_pipelineRun reg d (Line.stages part) "" e
    obtain ⟨runs, last, hpipelines, hthreads, hranss, hruns⟩ := ih f
    refine ⟨rs :: runs, last, .cons hpipeline hpipelines, ?_, ?_, ?_⟩
    · rw [List.flatten_cons]
      exact hthreaded.append hthreads
    · rw [List.flatten_cons]
      exact List.forall_mem_append.2 ⟨hrans, hranss⟩
    · rw [List.flatten_cons, List.map_append, Registry.runParts, Shell.run_bind_of_run hrun,
        Shell.run_bind_of_run hruns]
      rfl

/-- What is run of a line with any dispatcher for the lines inside it. -/
theorem exists_lineRun (line : String) (e : Environment) :
    ∃ runs, LineRun reg d line e runs ((reg.runLine d line).run e) := by
  obtain ⟨runs, last, hparts, hthreaded, hran, hrun⟩ := exists_runs reg d (Line.parts line) e
  have hline : (reg.runLine d line).run e =
      (reg.runParts d (Line.parts line) >>= fun outcomes => do
        modify fun f => { f with stdin := e.stdin }
        return outcomes : Shell (List Outcome)).run e := rfl
  have hresult : (reg.runLine d line).run e =
      (runs.flatten.map (·.outcome), { last with stdin := e.stdin }) := by
    rw [hline, Shell.run_bind_of_run hrun]
    rfl
  exact ⟨runs, hparts, hran, fun r hr => (hran r hr).fails_iff,
    ⟨last, hthreaded, congrArg Prod.snd hresult⟩, congrArg Prod.fst hresult⟩

end Runs

/-! ## Input -/

/-- The input of the environments is the same. -/
def Environment.SameInput (e f : Environment) : Prop :=
  f.stdin = e.stdin

/-- No step of a command changes the input. -/
instance : CommandClosed Environment.SameInput where
  refl _ := rfl
  trans hef hfg := Eq.trans hfg hef
  step h := by cases h <;> rfl

namespace Registry

/-- The dispatcher that commands of a line are given if lines may be run this deep inside it. -/
def dispatcher (reg : Registry) (depth : Nat) : Dispatcher :=
  ⟨reg.helpLines, reg.executeWithin depth⟩

/-- A line leaves the input as it was, whatever the commands of the registry do. -/
theorem executeWithin_sameInput (reg : Registry) (depth : Nat) (line : String) :
    Shell.Keeps Environment.SameInput (reg.executeWithin depth line) := by
  intro e
  cases depth with
  | zero => rfl
  | succ depth =>
    obtain ⟨runs, hrun⟩ := exists_lineRun reg (reg.dispatcher depth) line e
    exact hrun.stdin_eq

/-- Running a line runs its parts in order, and of each part the stages up to the first that fails,
each with the output of the one before. It leaves the input as it was; so does a script, whose lines
are run in the same way inside a stage. -/
theorem execute_dispatches (reg : Registry) (line : String) (e : Environment) :
    (∃ runs, LineRun reg (reg.dispatcher (nesting - 1)) line e runs ((reg.execute line).run e)) ∧
    (∀ depth, ∃ runs,
      LineRun reg (reg.dispatcher depth) line e runs ((reg.executeWithin (depth + 1) line).run e)) ∧
    ∀ depth args,
      ((Commands.script.job (reg.dispatcher depth) args).run.run e).2.stdin = e.stdin := by
  refine ⟨exists_lineRun reg _ line e, fun depth => exists_lineRun reg _ line e, ?_⟩
  intro depth args
  exact Commands.script_stepwise Environment.SameInput _ args
    (fun inner => executeWithin_sameInput reg depth inner) e

/-- An environment in which a line begins with an input from before. -/
def fedEnvironment : Environment where
  session := Session.ofSettings {} []
  files := { root := Node.newDir 0, bookmarks := [], storage := {}, now := 0, options := {} }
  stdin := "kept"

/-- A line of four parts, with a quoted semicolon and an empty part between them. The first three
stop at a stage that names no command or whose command fails, the last goes on after a stage without
tokens; the second does not see what the first part put out. -/
theorem execute_dispatches_stopped :
    let line := "echo \"a;b\" | cat | nope | echo c ;; cat; read | echo d;\"\"|echo e"
    let result := (Commands.registry.execute line).run fedEnvironment
    Line.parts line =
        ["echo \"a;b\" | cat | nope | echo c", "cat", "read | echo d", "\"\"|echo e"] ∧
      Line.stages "echo \"a;b\" | cat | nope | echo c" =
        ["echo \"a;b\"", "cat", "nope", "echo c"] ∧
      (∃ runs, LineRun Commands.registry (Commands.registry.dispatcher (nesting - 1)) line
          fedEnvironment runs result ∧
        runs.flatten.map (·.outcome) =
          [⟨"echo", true, "a;b"⟩, ⟨"cat", true, "a;b"⟩, ⟨"nope", false, ""⟩, ⟨"cat", false, ""⟩,
            ⟨"read", false, ""⟩, ⟨"", true, ""⟩, ⟨"echo", true, "e"⟩]) ∧
      result.2.stdin = "kept" := by
  intro line result
  obtain ⟨⟨runs, hrun⟩, -, -⟩ := execute_dispatches Commands.registry line fedEnvironment
  refine ⟨by decide +kernel, by decide +kernel, ⟨runs, hrun, ?_⟩, hrun.stdin_eq⟩
  rw [← hrun.outcomes]
  decide +kernel

end Registry

end SimTerm

import SimTerm.Proofs.Shell.Budget

/-!
# How deep lines are nested

Only scripts run lines inside a line, and no script begins at the greatest depth. So lines are
nested one deeper than scripts at most, and running a line comes to an end: `agree_executeOver` says
that what a line comes to is the same whatever the lines that are nested deeper would do, so none of
them is run. With the counters of `Budgeted` this is the safety valve of scripts:
`execute_within_bounds`.
-/

namespace SimTerm

open Commands

/-- Run a line inside which lines may be nested this deep; a line nested deeper is left to
`bottom`. -/
def Registry.executeOver (reg : Registry) (bottom : String → Shell (List Outcome)) :
    Nat → String → Shell (List Outcome)
  | 0, line => bottom line
  | depth + 1, line => reg.runLine ⟨reg.helpLines, executeOver reg bottom depth⟩ line

/-- Running nothing below the bound is one of the ways to go on there. -/
theorem Registry.executeWithin_eq_executeOver (reg : Registry) (depth : Nat) (line : String) :
    reg.executeWithin depth line = reg.executeOver (fun _ => pure []) depth line := by
  induction depth generalizing line with
  | zero => rfl
  | succ depth ih =>
    have hinner : reg.executeWithin depth = reg.executeOver (fun _ => pure []) depth := funext ih
    rw [executeWithin, executeOver, hinner]

/-! ## Computations that agree at a depth -/

namespace Shell

/-- From every environment of this depth both computations come to the same, and at the same
depth. -/
def Agree (k : Nat) (x y : Shell α) : Prop :=
  ∀ e, e.scriptDepth = k → x.run e = y.run e ∧ (x.run e).2.scriptDepth = k

variable {k : Nat}

theorem agree_pure (a : α) : Agree k (pure a : Shell α) (pure a) :=
  fun _ he => ⟨rfl, he⟩

/-- Two computations that agree go on in agreement if what follows agrees on their common value. -/
theorem agree_bind {x y : Shell α} {f g : α → Shell β} (hxy : Agree k x y)
    (hfg : ∀ a, Agree k (f a) (g a)) : Agree k (x >>= f) (y >>= g) := by
  intro e he
  obtain ⟨hrun, hdepth⟩ := hxy e he
  obtain ⟨hrun', hdepth'⟩ := hfg (x.run e).1 (x.run e).2 hdepth
  refine ⟨?_, hdepth'⟩
  rw [StateT.run_bind, StateT.run_bind, ← hrun]
  exact hrun'

/-- A change of the environment that leaves the depth alone. -/
theorem agree_modify {change : Environment → Environment}
    (h : ∀ e, (change e).scriptDepth = e.scriptDepth) :
    Agree k (modify change : Shell PUnit) (modify change) :=
  fun e he => ⟨rfl, (h e).trans he⟩

end Shell

/-! ## Commands -/

/-- What the command does has nothing to do with how lines are run. -/
def Command.RunsNoLines (c : Command) : Prop :=
  ∀ (d d' : Dispatcher) (args : List String), d.helpLines = d'.helpLines →
    c.job d args = c.job d' args

/-- Only scripts run lines. -/
theorem runsNoLines {c : Command} (hmem : c ∈ all) (hc : c ≠ script) : c.RunsNoLines := by
  have hhelp : help.RunsNoLines := by
    intro d d' args hlines
    unfold help
    dsimp only
    rw [hlines]
  have hothers : ∀ c ∈ all, c = help ∨ c = script ∨ c.RunsNoLines := by
    simp only [all, general, files, bookmarks, system, List.cons_append, List.nil_append,
      List.forall_mem_cons, List.not_mem_nil, false_implies, implies_true, true_or, or_true,
      true_and, and_true]
    and_intros <;> exact Or.inr (Or.inr fun _ _ _ _ => rfl)
  rcases hothers c hmem with rfl | hscript | hc'
  · exact hhelp
  · exact absurd hscript hc
  · exact hc'

section

variable {k : Nat} {d d' : Dispatcher}

/-- The lines of a script, by induction on the lines still to run. -/
theorem agree_runScript (hinner : ∀ line, Shell.Agree k (d.run line) (d'.run line))
    (lines : List String) : Shell.Agree k (runScript d lines).run (runScript d' lines).run := by
  induction lines with
  | nil => exact Shell.agree_pure _
  | cons line lines ih =>
    intro e he
    rw [run_runScript_cons, run_runScript_cons]
    by_cases hspent : e.linesLeft = 0
    · rw [if_pos hspent, if_pos hspent]
      exact ⟨rfl, he⟩
    · rw [if_neg hspent, if_neg hspent]
      obtain ⟨hrun, hdepth⟩ := hinner line (e.lineBegun line) he
      rw [← hrun]
      exact ih _ hdepth

/-- A command does the same if lines one deeper do, as far as there is room for a script. -/
theorem agree_job (hlines : d.helpLines = d'.helpLines)
    (hinner : k < maxScriptDepth → ∀ line, Shell.Agree (k + 1) (d.run line) (d'.run line))
    {c : Command} (hmem : c ∈ all) (args : List String) :
    Shell.Agree k (c.job d args).run (c.job d' args).run := by
  intro e he
  -- only a script runs lines, and it does so where there is room for one more
  by_cases hc : c = script
  · subst hc
    rw [run_script, run_script]
    cases hrun : scriptToRun e args with
    | error failure => exact ⟨rfl, he⟩
    | ok lines =>
      have hroom : k < maxScriptDepth := he ▸ (scriptToRun_eq_ok hrun).1
      obtain ⟨hsame, hdepth⟩ :=
        agree_runScript (hinner hroom) lines e.deeper (congrArg (· + 1) he)
      dsimp only
      rw [run_oneDeeper, run_oneDeeper, ← hsame]
      refine ⟨rfl, ?_⟩
      show ((runScript d lines).run.run e.deeper).2.scriptDepth - 1 = k
      rw [hdepth, Nat.add_sub_cancel]
  · rw [runsNoLines hmem hc d d' args hlines]
    exact ⟨rfl, (Environment.job_quiet hmem hc args e).scriptDepth.trans he⟩

/-- Stages agree if the lines inside them do, one script deeper. -/
theorem agree_runStage (hlines : d.helpLines = d'.helpLines)
    (hinner : k < maxScriptDepth → ∀ line, Shell.Agree (k + 1) (d.run line) (d'.run line))
    (stage : String) : Shell.Agree k (registry.runStage d stage) (registry.runStage d' stage) := by
  unfold Registry.runStage
  cases Line.tokens stage with
  | nil => exact Shell.agree_pure _
  | cons name args =>
    dsimp only
    cases hname : Entries.get? name registry with
    | none =>
      exact Shell.agree_bind (Shell.agree_modify fun _ => rfl) fun _ => Shell.agree_pure _
    | some c =>
      intro e he
      obtain ⟨hjob, hdepth⟩ := agree_job hlines hinner (get?_registry.1 hname).1 args e.captured he
      dsimp only
      rw [Registry.run_runCommand, Registry.run_runCommand, ← hjob]
      exact ⟨rfl, (Environment.concluded_quiet name _ _).scriptDepth.trans hdepth⟩

/-- Stages one after the other agree, by induction on the stages. -/
theorem agree_runStages (hlines : d.helpLines = d'.helpLines)
    (hinner : k < maxScriptDepth → ∀ line, Shell.Agree (k + 1) (d.run line) (d'.run line))
    (stdin : String) (stages : List String) :
    Shell.Agree k (registry.runStages d stdin stages) (registry.runStages d' stdin stages) := by
  induction stages generalizing stdin with
  | nil => exact Shell.agree_pure _
  | cons stage rest ih =>
    refine Shell.agree_bind (Shell.agree_modify fun _ => rfl) fun _ => ?_
    refine Shell.agree_bind (agree_runStage hlines hinner stage) fun outcome => ?_
    split
    · exact Shell.agree_bind (ih outcome.output) fun _ => Shell.agree_pure _
    · exact Shell.agree_pure _

/-- Lines agree if the lines inside them do, one script deeper. -/
theorem agree_runLine (hlines : d.helpLines = d'.helpLines)
    (hinner : k < maxScriptDepth → ∀ line, Shell.Agree (k + 1) (d.run line) (d'.run line))
    (line : String) : Shell.Agree k (registry.runLine d line) (registry.runLine d' line) := by
  have hparts : ∀ parts : List String,
      Shell.Agree k (registry.runParts d parts) (registry.runParts d' parts) := by
    intro parts
    induction parts with
    | nil => exact Shell.agree_pure _
    | cons part rest ih =>
      exact Shell.agree_bind (agree_runStages hlines hinner "" _) fun _ =>
        Shell.agree_bind ih fun _ => Shell.agree_pure _
  have hget : Shell.Agree k (get : Shell Environment) get := fun _ he => ⟨rfl, he⟩
  exact Shell.agree_bind hget fun _ => Shell.agree_bind (hparts _) fun _ =>
    Shell.agree_bind (Shell.agree_modify fun _ => rfl) fun _ => Shell.agree_pure _

end

/-- With room for all scripts that may be nested below this depth, it does not matter what is left
to `bottom`, nor how much more room there is: by induction on the room. -/
theorem agree_executeOver (bottom bottom' : String → Shell (List Outcome)) {n m k : Nat}
    (hk : k ≤ maxScriptDepth) (hn : maxScriptDepth < n + k) (hm : maxScriptDepth < m + k)
    (line : String) :
    Shell.Agree k (registry.executeOver bottom n line) (registry.executeOver bottom' m line) := by
  induction n generalizing m k line with
  | zero => omega
  | succ n ih =>
    cases m with
    | zero => omega
    | succ m =>
      -- where there is no room left for a script, nothing has to be known of the lines inside
      have hinner : k < maxScriptDepth → ∀ line, Shell.Agree (k + 1)
          (registry.executeOver bottom n line) (registry.executeOver bottom' m line) :=
        fun hroom line => ih hroom (by omega) (by omega) line
      exact agree_runLine (by rfl) hinner line

/-! ## The safety valve -/

/-- The environment in which an entered line is run. -/
def Environment.entered (m : Machine) : Environment :=
  { toMachine := m }

/-- Whatever the files hold, running a line comes to an end: the lines inside it are nested one
deeper than scripts may be, and what is nested deeper does not matter. Scripts hand over at most
`maxScriptLines` lines in all, which are the lines that the log shows, and at most `maxScriptDepth`
of them are in progress. At every moment the budget left and the lines handed over so far make up
the whole budget; and however a script ends, the depth is the earlier one. -/
theorem Commands.execute_within_bounds (m : Machine) (line : String) :
    let e := Environment.entered m
    let result := (registry.execute line).run e
    let course := lineCourse Registry.nesting 0 line e
    (∀ bottom depth, maxScriptDepth < depth →
      (registry.executeOver bottom depth line).run e = result) ∧
    course.lines.length ≤ maxScriptLines ∧
    (∀ moment ∈ course,
      moment.environment.scriptDepth = moment.scripts ∧ moment.scripts ≤ maxScriptDepth) ∧
    (∀ past moment future, course = past ++ moment :: future →
      moment.environment.linesLeft + (Course.lines (past ++ [moment])).length = maxScriptLines) ∧
    result.2.linesLeft + course.lines.length = maxScriptLines ∧
    (∃ events : List SessionEvent, result.2.session.log = events.reverse ++ m.session.log ∧
      events.filterMap SessionEvent.echoed? = course.lines) ∧
    ∀ depth args f,
      ((script.job (registry.dispatcher depth) args).run.run f).2.scriptDepth = f.scriptDepth := by
  intro e result course
  have hbudget : Budgeted 0 e course result.2 :=
    budgeted_law.line Registry.nesting 0 line e rfl (Nat.zero_le _)
  have htotal := hbudget.charges.total
  have hwhole : result.2.linesLeft + course.lines.length = maxScriptLines := htotal
  refine ⟨fun bottom depth hdepth => ?_, by omega, hbudget.moments, fun past moment future h => ?_,
    hwhole, hbudget.shown, fun depth args f => scriptDepth_script depth args f⟩
  · have hroom : maxScriptDepth < Registry.nesting + 0 := by decide
    have hagree := (agree_executeOver bottom (fun _ => pure []) (Nat.zero_le _) hdepth hroom line e
      rfl).1
    rw [hagree, ← Registry.executeWithin_eq_executeOver]
    rfl
  · have hcharges := hbudget.charges
    rw [h] at hcharges
    exact hcharges.at_moment

/-- A file that runs itself as a script, after a line of its own. -/
def selfCalling : Machine where
  session := { Session.ofSettings {} [] with screen := Screen.ofSize 2 60 [] }
  files := { FileSystem.open {} 0 { user := "guest", bare := true } with
    root := .dir [("s", .file "echo a\ncmd run /s" (Node.stampedAt 0))] (Node.stampedAt 0) }

/-- A script that calls itself is stopped at the greatest depth, after two lines on each level. -/
theorem Commands.execute_within_bounds_self :
    (lineCourse Registry.nesting 0 "cmd run /s" (.entered selfCalling)).lines.length =
      2 * maxScriptDepth := by
  -- the budget that is left tells how many lines there were
  have hcount : ∀ m, ((registry.execute "cmd run /s").run (.entered m)).2.linesLeft +
      2 * maxScriptDepth = maxScriptLines →
      (lineCourse Registry.nesting 0 "cmd run /s" (.entered m)).lines.length =
        2 * maxScriptDepth := by
    intro m hleft
    obtain ⟨-, -, -, -, htotal, -, -⟩ := execute_within_bounds m "cmd run /s"
    exact Nat.add_left_cancel (htotal.trans hleft.symm)
  exact hcount selfCalling (by decide +kernel)

end SimTerm

import SimTerm.Proofs.Session.Log
import SimTerm.Proofs.Shell.Course
import SimTerm.Proofs.Shell.Output

/-!
# Scripts stay within bounds

Scripts may call themselves and each other, and may rewrite the files they are read from. Two
counters bound them all the same. A line handed over by a script takes one from the budget of the
entered line, and nothing gives anything back; every script in progress adds one to the depth until
it ends, however it ends. So at every moment of a line the budget left and the lines handed over so
far add up to the budget that the line began with, and the depth is the number of scripts in
progress: `Budgeted`, which follows a law of courses.
-/

namespace SimTerm

open Commands

/-! ## Stages that run no script -/

/-- The text that was shown in place of the input, if one was. -/
def SessionEvent.echoed? : SessionEvent → Option String
  | .echoed text => some text
  | _ => none

/-- An event that shows no input shows no script line. -/
theorem SessionEvent.echoed?_of_not_showsInput (event : SessionEvent)
    (h : event.showsInput = false) : event.echoed? = none := by
  cases event with
  | echoed text => cases h
  | _ => rfl

namespace Environment

/-- Neither counter of scripts changes, and no script line is shown. -/
structure Quiet (e f : Environment) : Prop where
  linesLeft : f.linesLeft = e.linesLeft
  scriptDepth : f.scriptDepth = e.scriptDepth
  log : Session.Logs (fun event => event.echoed? = none) e.session f.session

theorem Quiet.refl (e : Environment) : e.Quiet e :=
  ⟨rfl, rfl, Session.Logs.of_eq rfl⟩

/-- Two quiet parts are quiet together. -/
theorem Quiet.trans {e f g : Environment} (hef : e.Quiet f) (hfg : f.Quiet g) : e.Quiet g :=
  ⟨hfg.linesLeft.trans hef.linesLeft, hfg.scriptDepth.trans hef.scriptDepth,
    hef.log.trans hfg.log⟩

/-- To be quiet since some environment, as something to keep up. -/
def quietSince (e : Environment) : Upkeep :=
  ⟨e.Quiet, fun _ => True, fun _ => True, fun _ => True⟩

/-- Ordinary steps, captures and reboots are quiet. -/
theorem quietSince_bootable (e : Environment) : e.quietSince.Bootable := by
  have hprinted := SessionEvent.echoed?_of_not_showsInput
  have hsound : e.quietSince.Sound := by
    refine Upkeep.sound_of_steps fun f g hstep hf => ?_
    have hlog : Session.Logs (fun event => event.echoed? = none) f.session g.session := by
      cases hstep with
      | print line => exact Session.print_logs hprinted _ line
      | clearScreen => exact Session.clearScreen_logs hprinted _
      | changeDir => exact Session.Logs.of_eq rfl
      | files => exact Session.Logs.of_eq rfl
      | clip => exact Session.Logs.of_eq rfl
    -- only running a script changes a counter, and no ordinary step does
    have hcounters : g.linesLeft = f.linesLeft ∧ g.scriptDepth = f.scriptDepth := by
      cases hstep <;> exact ⟨rfl, rfl⟩
    exact ⟨hcounters.1.trans hf.linesLeft, hcounters.2.trans hf.scriptDepth, hf.log.trans hlog⟩
  refine ⟨⟨hsound, fun hf => ⟨hf.linesLeft, hf.scriptDepth, hf.log⟩, fun {f} hf => ?_⟩,
    fun {f} hf => ?_, fun hf => ⟨hf.linesLeft, hf.scriptDepth, hf.log⟩⟩
  · have hlog : f.uncaptured.session.log = f.session.log := by
      rw [uncaptured, endCapture_eq]
    exact ⟨hf.linesLeft, hf.scriptDepth, hf.log.trans (Session.Logs.of_eq hlog)⟩
  · exact ⟨hf.linesLeft, hf.scriptDepth, hf.log.trans (Machine.reboot_logs hprinted _)⟩

theorem pasted_quiet (e : Environment) (text : String) : e.Quiet (e.pasted text) :=
  ⟨rfl, rfl, Session.shown_logs SessionEvent.echoed?_of_not_showsInput e.session rfl
    (·.paste text.toList)⟩

/-- What is printed and captured around a command changes no counter. -/
theorem concluded_quiet (name : String) (result : Except Failure Unit) (g : Environment) :
    g.Quiet (Registry.concluded name (result, g)).2 :=
  (quietSince_bootable g).concluded (Quiet.refl g) name result

/-- No command but a script changes a counter. -/
theorem job_quiet {d : Dispatcher} {c : Command} (hmem : c ∈ all) (hc : c ≠ script)
    (args : List String) (e : Environment) : e.Quiet ((c.job d args).run.run e).2 := by
  -- a paste is no ordinary step, as it edits the input
  by_cases hpaste : c = paste
  · subst hpaste
    rw [run_paste]
    split
    · exact Quiet.refl e
    · exact Quiet.refl e
    · exact pasted_quiet e _
  · have hkept : Job.Upholds e.quietSince (fun _ => True) (c.job d args) :=
      (quietSince_bootable e).command hmem hc hpaste fun _ _ => trivial
    exact (hkept e (Quiet.refl e)).2

/-- A stage that runs no script is quiet. -/
theorem runStage_quiet {d : Dispatcher} {stage : String} {e : Environment}
    (h : scriptOf? stage e = none) : e.Quiet ((registry.runStage d stage).run e).2 := by
  refine (quietSince_bootable e).toSeamless.runStage h (fun c args hmem _ hc f hf => ?_)
    (Quiet.refl e)
  exact ⟨fun _ _ => trivial, hf.trans (job_quiet hmem hc args f)⟩

end Environment

/-! ## The budget along a course -/

namespace Course

/-- The budget goes from one number to another along the course, by one for each line that a script
hands over. -/
def Charges : Nat → Course → Nat → Prop
  | left, [], last => last = left
  | left, m :: course, last =>
    m.environment.linesLeft + m.line?.toList.length = left ∧
      Charges m.environment.linesLeft course last

/-- The charges of two parts are made one after the other. -/
theorem Charges.append {a b : Course} {left mid last : Nat} (ha : Charges left a mid)
    (hb : Charges mid b last) : Charges left (a ++ b) last := by
  induction a generalizing left with
  | nil =>
    obtain rfl : mid = left := ha
    exact hb
  | cons m a ih => exact ⟨ha.1, ih ha.2⟩

/-- What is left at the end, and the lines handed over. -/
theorem Charges.total {course : Course} {left last : Nat} (h : Charges left course last) :
    last + course.lines.length = left := by
  induction course generalizing left with
  | nil => exact h
  | cons m course ih =>
    have hrest := ih h.2
    have hfirst := h.1
    rw [lines_cons, List.length_append]
    omega

/-- What is left at some moment, and the lines handed over up to it. -/
theorem Charges.at_moment {past future : Course} {m : Moment} {left last : Nat}
    (h : Charges left (past ++ m :: future) last) :
    m.environment.linesLeft + (Course.lines (past ++ [m])).length = left := by
  induction past generalizing left with
  | nil =>
    rw [List.nil_append, lines_cons, List.length_append]
    exact h.1
  | cons first past ih =>
    have hrest := ih h.2
    have hfirst := h.1
    rw [List.cons_append, lines_cons, List.length_append]
    omega

end Course

/-- The course of something that is run while this many scripts are in progress. -/
structure Budgeted (scripts : Nat) (e : Environment) (course : Course) (f : Environment) :
    Prop where
  scriptDepth : f.scriptDepth = scripts
  moments : ∀ m ∈ course, m.environment.scriptDepth = m.scripts ∧ m.scripts ≤ maxScriptDepth
  charges : course.Charges e.linesLeft f.linesLeft
  /-- The lines that scripts hand over are those that are shown, as the log tells. -/
  shown : ∃ events : List SessionEvent, f.session.log = events.reverse ++ e.session.log ∧
    events.filterMap SessionEvent.echoed? = course.lines

namespace Budgeted

variable {scripts : Nat} {e f g : Environment} {a b : Course}

/-- What is quiet and runs no line has the empty course. -/
theorem of_quiet (hdepth : e.scriptDepth = scripts) (h : e.Quiet f) : Budgeted scripts e [] f := by
  obtain ⟨events, hlog, hevents⟩ := h.log
  exact ⟨h.scriptDepth.trans hdepth, List.forall_mem_nil _, h.linesLeft, events, hlog,
    List.filterMap_eq_nil_iff.2 hevents⟩

/-- Two parts within the budget are within it together. -/
theorem trans (hef : Budgeted scripts e a f) (hfg : Budgeted scripts f b g) :
    Budgeted scripts e (a ++ b) g := by
  obtain ⟨events, hlog, hevents⟩ := hef.shown
  obtain ⟨events', hlog', hevents'⟩ := hfg.shown
  refine ⟨hfg.scriptDepth, List.forall_mem_append.2 ⟨hef.moments, hfg.moments⟩,
    hef.charges.append hfg.charges, events ++ events', ?_, ?_⟩
  · rw [hlog', hlog, List.reverse_append, List.append_assoc]
  · rw [List.filterMap_append, hevents, hevents', Course.lines_append]

/-- A moment at which no line is handed over, where a stretch begins or ends. -/
theorem moment (hdepth : e.scriptDepth = scripts) (hscripts : scripts ≤ maxScriptDepth)
    {m : Moment} (hm : m.environment = e) (hcount : m.scripts = scripts) (hline : m.line? = none) :
    Budgeted scripts e [m] e := by
  refine ⟨hdepth, List.forall_mem_singleton.2 ?_, ⟨?_, ?_⟩, [], rfl, ?_⟩
  · rw [hm, hcount]
    exact ⟨hdepth, hscripts⟩
  · rw [hm, hline]
    rfl
  · exact congrArg Environment.linesLeft hm.symm
  · rw [Course.lines_cons, hline]
    rfl

/-- A line that a script hands over is charged and shown. -/
theorem runs (hdepth : e.scriptDepth = scripts) (hscripts : scripts ≤ maxScriptDepth)
    (line : String) (hleft : e.linesLeft ≠ 0) :
    Budgeted scripts e [⟨.runs line, scripts, e.lineBegun line⟩] (e.lineBegun line) := by
  refine ⟨hdepth, List.forall_mem_singleton.2 ⟨hdepth, hscripts⟩, ⟨?_, rfl⟩, ?_⟩
  · exact Nat.sub_add_cancel (Nat.one_le_iff_ne_zero.2 hleft)
  · -- what is shown, and the prompt row that may be drawn over output with it
    let shown : Session :=
      { e.session.record (.echoed line) with editor := Editor.echo line.toList }
    refine ⟨.echoed line :: shown.drawn, ?_, ?_⟩
    · have hlog : (e.lineBegun line).session.log = shown.renderInput.log := rfl
      rw [hlog, Session.log_renderInput, List.reverse_cons, List.append_assoc]
      rfl
    · have hdrawn : shown.drawn.filterMap SessionEvent.echoed? = [] := by
        unfold Session.drawn
        split <;> rfl
      exact congrArg (line :: ·) hdrawn

end Budgeted

/-- The budget and the depth follow a law of courses. -/
theorem budgeted_law : CourseLaw fun _ scripts e course f =>
    e.scriptDepth = scripts → scripts ≤ maxScriptDepth → Budgeted scripts e course f where
  refl _ _ e hdepth _ := Budgeted.of_quiet hdepth (Environment.Quiet.refl e)
  trans hef hfg hdepth hscripts :=
    (hef hdepth hscripts).trans (hfg (hef hdepth hscripts).scriptDepth hscripts)
  stdin _ _ e stdin hdepth _ :=
    Budgeted.of_quiet hdepth (f := { e with stdin }) ⟨rfl, rfl, Session.Logs.of_eq rfl⟩
  oneOf _ hef := hef
  stageOf _ _ hef := hef
  runs {line _ _ _} _ hleft hdepth hscripts := Budgeted.runs hdepth hscripts line hleft
  stage {d stage scripts e f outcome} hscript hrun hdepth hscripts := by
    have hquiet : e.Quiet f := by
      have hkept := Environment.runStage_quiet (d := d) hscript
      rwa [hrun] at hkept
    have hbegins := Budgeted.moment hdepth hscripts (m := ⟨.begins stage, scripts, e⟩) rfl rfl rfl
    have hended := Budgeted.of_quiet hdepth hquiet
    have hends := Budgeted.moment hended.scriptDepth hscripts
      (m := ⟨.ends stage outcome, scripts, f⟩) rfl rfl rfl
    exact hbegins.trans (hended.trans hends)
  script {stage args lines scripts e f g a result outcome} _ hlines hinside hends hdepth
      hscripts := by
    have hroom := (scriptToRun_eq_ok hlines).1
    have hscript := hinside (congrArg (· + 1) hdepth) (by omega)
    have hquiet : g.shallower.Quiet f := by
      have hconcluded := Environment.concluded_quiet "cmd" result g.shallower
      rwa [hends] at hconcluded
    have hback : g.shallower.scriptDepth = scripts := by
      show g.scriptDepth - 1 = scripts
      rw [hscript.scriptDepth, Nat.add_sub_cancel]
    -- the script begins one deeper and in a capture, and its end takes both back
    have hrun : Budgeted scripts e a g.shallower :=
      ⟨hback, hscript.moments, hscript.charges, hscript.shown⟩
    have hbegins := Budgeted.moment hdepth hscripts (m := ⟨.begins stage, scripts, e⟩) rfl rfl rfl
    have hended := Budgeted.of_quiet hback hquiet
    have hmoment := Budgeted.moment hended.scriptDepth hscripts
      (m := ⟨.ends stage outcome, scripts, f⟩) rfl rfl rfl
    exact hbegins.trans (hrun.trans (hended.trans hmoment))

/-- However a script ends, the depth is the earlier one afterwards. -/
theorem scriptDepth_script (depth : Nat) (args : List String) (e : Environment) :
    ((script.job (registry.dispatcher depth) args).run.run e).2.scriptDepth = e.scriptDepth := by
  rw [run_script]
  cases hlines : scriptToRun e args with
  | error failure => rfl
  | ok lines =>
    have hroom := (scriptToRun_eq_ok hlines).1
    have hinside := budgeted_law.lines (d := registry.dispatcher depth) (budgeted_law.line depth)
      (e.scriptDepth + 1) lines e.deeper rfl (by omega)
    show ((runScript _ lines).run.run e.deeper).2.scriptDepth - 1 = e.scriptDepth
    rw [hinside.scriptDepth, Nat.add_sub_cancel]

end SimTerm

import SimTerm.Proofs.Shell.Stage

/-!
# The course of a line

What happens while a line of built-in commands is run, moment by moment: stages begin and are over,
and scripts hand over their lines. The course of a line mirrors how the line is run, clause by
clause, and tells of every stage of it and of the lines of scripts inside it, however deeply they
are nested.

A `CourseLaw` relates an environment, a course and the environment after it, given the texts that
are run. If it holds of the single moments, and of what follows one another, then it holds of whole
lines: `CourseLaw.line`. A stage that runs no script is a single step here.
-/

namespace SimTerm

/-- What happens while a line is run. -/
inductive Deed where
  /-- A stage begins. -/
  | begins (stage : String)
  /-- A script hands over a line of its own. -/
  | runs (line : String)
  /-- A stage is over. -/
  | ends (stage : String) (outcome : Outcome)
deriving DecidableEq, Repr

/-- Something that happens, how many scripts are in progress by then, and where it leads to. -/
structure Moment where
  deed : Deed
  scripts : Nat
  environment : Environment

/-- The line that a script hands over at this moment. -/
def Moment.line? (m : Moment) : Option String :=
  match m.deed with
  | .runs line => some line
  | _ => none

/-- What happens, in order. -/
abbrev Course := List Moment

/-- The lines that scripts hand over, in order. -/
def Course.lines (course : Course) : List String :=
  course.filterMap Moment.line?

theorem Course.lines_cons (m : Moment) (course : Course) :
    Course.lines (m :: course) = m.line?.toList ++ Course.lines course := by
  rw [Course.lines, List.filterMap_cons]
  cases m.line? <;> rfl

/-- The script lines of two parts come one after the other. -/
theorem Course.lines_append (a b : Course) : Course.lines (a ++ b) = a.lines ++ b.lines :=
  List.filterMap_append

namespace Commands

section Courses

variable (d : Dispatcher) (inner : Nat → String → Environment → Course)

/-- The course of the lines of a script, given the course of each line. -/
def scriptCourse (scripts : Nat) : List String → Environment → Course
  | [], _ => []
  | line :: lines, e =>
    if e.linesLeft = 0 then []
    else
      ⟨.runs line, scripts, e.lineBegun line⟩ :: (inner scripts line (e.lineBegun line) ++
        scriptCourse scripts lines ((d.run line).run (e.lineBegun line)).2)

/-- The course of a stage. -/
def stageCourse (scripts : Nat) (stage : String) (e : Environment) : Course :=
  let inside :=
    match scriptOf? stage e with
    | some lines => scriptCourse d inner (scripts + 1) lines e.captured.deeper
    | none => []
  let (outcome, f) := (registry.runStage d stage).run e
  ⟨.begins stage, scripts, e⟩ :: (inside ++ [⟨.ends stage outcome, scripts, f⟩])

/-- The course of stages up to the first that fails, with this input for the first. -/
def stagesCourse (scripts : Nat) (stdin : String) : List String → Environment → Course
  | [], _ => []
  | stage :: rest, e =>
    let (outcome, f) := (registry.runStage d stage).run { e with stdin }
    stageCourse d inner scripts stage { e with stdin } ++
      if outcome.success then stagesCourse scripts outcome.output rest f else []

/-- The course of parts. -/
def partsCourse (scripts : Nat) : List String → Environment → Course
  | [], _ => []
  | part :: rest, e =>
    stagesCourse d inner scripts "" (Line.stages part) e ++
      partsCourse scripts rest ((registry.runStages d "" (Line.stages part)).run e).2

end Courses

/-- The course of a line inside which lines may be nested this deep. -/
def lineCourse : Nat → Nat → String → Environment → Course
  | 0, _, _, _ => []
  | depth + 1, scripts, line, e =>
    partsCourse (registry.dispatcher depth) (lineCourse depth) scripts (Line.parts line) e

end Commands

open Commands

/-! ## Laws of courses -/

/-- What holds of moments, and of one stretch of a course after the other. The texts are the lines
or the stages that are run in the stretch. -/
structure CourseLaw (P : List String → Nat → Environment → Course → Environment → Prop) :
    Prop where
  refl (texts : List String) (scripts : Nat) (e : Environment) : P texts scripts e [] e
  trans {texts : List String} {scripts : Nat} {e f g : Environment} {a b : Course}
    (hef : P texts scripts e a f) (hfg : P texts scripts f b g) : P texts scripts e (a ++ b) g
  stdin (texts : List String) (scripts : Nat) (e : Environment) (stdin : String) :
    P texts scripts e [] { e with stdin }
  oneOf {text : String} {texts : List String} {scripts : Nat} {e f : Environment} {a : Course}
    (h : text ∈ texts) (hef : P [text] scripts e a f) : P texts scripts e a f
  stageOf {line part stage : String} {scripts : Nat} {e f : Environment} {a : Course}
    (hpart : part ∈ Line.parts line) (hstage : stage ∈ Line.stages part)
    (hef : P [stage] scripts e a f) : P [line] scripts e a f
  runs {line : String} {lines : List String} {scripts : Nat} {e : Environment} (h : line ∈ lines)
    (hleft : e.linesLeft ≠ 0) :
    P lines scripts e [⟨.runs line, scripts, e.lineBegun line⟩] (e.lineBegun line)
  /-- A stage that runs no script. -/
  stage {d : Dispatcher} {stage : String} {scripts : Nat} {e f : Environment} {outcome : Outcome}
    (hscript : scriptOf? stage e = none) (hrun : (registry.runStage d stage).run e = (outcome, f)) :
    P [stage] scripts e [⟨.begins stage, scripts, e⟩, ⟨.ends stage outcome, scripts, f⟩] f
  /-- A stage that runs a script, whose lines come to this in the capture around it. -/
  script {stage : String} {args lines : List String} {scripts : Nat} {e f g : Environment}
    {a : Course} {result : Except Failure Unit} {outcome : Outcome}
    (htokens : Line.tokens stage = "cmd" :: args) (hlines : scriptToRun e args = .ok lines)
    (hinside : P lines (scripts + 1) e.captured.deeper a g)
    (hends : Registry.concluded "cmd" (result, g.shallower) = (outcome, f)) :
    P [stage] scripts e
      (⟨.begins stage, scripts, e⟩ :: (a ++ [⟨.ends stage outcome, scripts, f⟩])) f

namespace CourseLaw

variable {P : List String → Nat → Environment → Course → Environment → Prop} {d : Dispatcher}
  {inner : Nat → String → Environment → Course}

/-- The lines of a script, by induction on the lines still to run. -/
theorem lines (law : CourseLaw P)
    (hinner : ∀ scripts line e,
      P [line] scripts e (inner scripts line e) ((d.run line).run e).2)
    (scripts : Nat) (ls : List String) (e : Environment) :
    P ls scripts e (scriptCourse d inner scripts ls e) ((runScript d ls).run.run e).2 := by
  suffices hsome : ∀ rest : List String, rest ⊆ ls → ∀ e,
      P ls scripts e (scriptCourse d inner scripts rest e) ((runScript d rest).run.run e).2 from
    hsome ls (List.Subset.refl ls) e
  intro rest
  induction rest with
  | nil => exact fun _ e => law.refl ls scripts e
  | cons line rest ih =>
    intro hsub e
    obtain ⟨hline, hrest⟩ := List.cons_subset.1 hsub
    rw [run_runScript_cons, scriptCourse]
    by_cases hspent : e.linesLeft = 0
    · rw [if_pos hspent, if_pos hspent]
      exact law.refl ls scripts e
    · rw [if_neg hspent, if_neg hspent]
      have hbegun : P ls scripts e [_] (e.lineBegun line) := law.runs hline hspent
      have hran := law.oneOf hline (hinner scripts line (e.lineBegun line))
      exact law.trans hbegun (law.trans hran (ih hrest _))

/-- A stage follows the law: by itself where it runs no script, and else by the stretch of the lines
inside it. -/
theorem runStage (law : CourseLaw P)
    (hinner : ∀ scripts line e,
      P [line] scripts e (inner scripts line e) ((d.run line).run e).2)
    (scripts : Nat) (stage : String) (e : Environment) :
    P [stage] scripts e (stageCourse d inner scripts stage e)
      ((registry.runStage d stage).run e).2 := by
  unfold stageCourse
  cases hscript : scriptOf? stage e with
  | none => exact law.stage hscript rfl
  | some lines =>
    obtain ⟨args, htokens, hlines⟩ := scriptOf?_eq_some hscript
    have hinside := law.lines hinner (scripts + 1) lines e.captured.deeper
    rw [run_runStage_script d htokens hlines]
    exact law.script htokens hlines hinside rfl

/-- Stages follow the law, by induction on the stages. -/
theorem runStages (law : CourseLaw P)
    (hinner : ∀ scripts line e,
      P [line] scripts e (inner scripts line e) ((d.run line).run e).2)
    (scripts : Nat) {line part : String} (hpart : part ∈ Line.parts line) (stages : List String)
    (hstages : stages ⊆ Line.stages part) (stdin : String) (e : Environment) :
    P [line] scripts e (stagesCourse d inner scripts stdin stages e)
      ((registry.runStages d stdin stages).run e).2 := by
  induction stages generalizing stdin e with
  | nil => exact law.refl [line] scripts e
  | cons stage rest ih =>
    obtain ⟨hstage, hrest⟩ := List.cons_subset.1 hstages
    rcases hrun : (registry.runStage d stage).run { e with stdin } with ⟨outcome, f⟩
    have hfirst := law.runStage hinner scripts stage { e with stdin }
    rw [hrun] at hfirst
    have hbegun := law.trans (law.stdin [line] scripts e stdin) (law.stageOf hpart hstage hfirst)
    rw [run_runStages_cons registry d hrun, stagesCourse, hrun]
    dsimp only
    -- whether the other stages are run is up to the outcome of the first
    cases outcome.success with
    | false => exact law.trans hbegun (law.refl [line] scripts f)
    | true => exact law.trans hbegun (ih hrest outcome.output f)

/-- Parts follow the law, by induction on the parts. -/
theorem runParts (law : CourseLaw P)
    (hinner : ∀ scripts line e,
      P [line] scripts e (inner scripts line e) ((d.run line).run e).2)
    (scripts : Nat) {line : String} (parts : List String) (hparts : parts ⊆ Line.parts line)
    (e : Environment) :
    P [line] scripts e (partsCourse d inner scripts parts e)
      ((registry.runParts d parts).run e).2 := by
  induction parts generalizing e with
  | nil => exact law.refl [line] scripts e
  | cons part rest ih =>
    obtain ⟨hpart, hrest⟩ := List.cons_subset.1 hparts
    have hfirst := law.runStages hinner scripts hpart (Line.stages part)
      (List.Subset.refl _) "" e
    exact law.trans hfirst (ih hrest _)

/-- A law of courses holds of whole lines, by induction on how deep lines may run lines. -/
theorem line (law : CourseLaw P) (depth scripts : Nat) (line : String) (e : Environment) :
    P [line] scripts e (lineCourse depth scripts line e)
      ((registry.executeWithin depth line).run e).2 := by
  induction depth generalizing scripts line e with
  | zero => exact law.refl [line] scripts e
  | succ depth ih =>
    have hparts := law.runParts (d := registry.dispatcher depth) ih scripts (Line.parts line)
      (List.Subset.refl _) e
    have hwhole := law.trans hparts (law.stdin [line] scripts _ e.stdin)
    rw [List.append_nil] at hwhole
    exact hwhole

end CourseLaw

end SimTerm

import SimTerm.Proofs.Shell.Course
import SimTerm.Proofs.Terminal.Output

/-!
# What a submitted line leaves in the input

Two things put text into the input while a line is run: a script shows each of its lines there, in
the place of whatever was there, and a paste inserts what is in the clipboard at the cursor. Only
what a paste has inserted is kept through the next prompt; but what is kept is the whole input, and
a script line that was shown there is part of it.

`edited_law` follows the input along the course of a line, and `submit_input` says what the next
prompt starts with. As long as no script hands over a line, that is what was pasted. Otherwise only
what happens after the last script line matters: the line itself comes first if anything is pasted
behind it, and nothing is left if nothing is.
-/

namespace SimTerm

open Commands

/-! ## Text behind which the cursor stands -/

namespace Editor

/-- A text with the cursor behind it. -/
def atEnd (text : List Char) (kept : Bool) : Editor :=
  { input := text, cursor := text.length, kept }

/-- The cursor is at the end of the input. -/
theorem cursor_atEnd (text : List Char) (kept : Bool) :
    (atEnd text kept).cursor = (atEnd text kept).input.length :=
  rfl

/-- A paste goes on at the end, and is kept through the next prompt. -/
theorem paste_atEnd (text more : List Char) (kept : Bool) :
    (atEnd text kept).paste more = atEnd (text ++ more) true := by
  simp [atEnd, paste, put, before, after]

/-- A prompt keeps a pasted input once, and empties every other. -/
theorem atPrompt_atEnd (text : List Char) (kept : Bool) :
    (atEnd text kept).atPrompt = atEnd (if kept then text else []) false := by
  cases kept <;> rfl

end Editor

/-! ## The input along a course -/

/-- The text in the clipboard, if it may be read and there is one. -/
def Clipboard.text? : Clipboard → Option String
  | .holding text => text
  | .denied => none

namespace Moment

/-- The text from the clipboard that was inserted by a paste which is over at this moment and has
succeeded. -/
def pasted? (m : Moment) : Option String :=
  match m.deed with
  | .ends stage outcome =>
    if (Line.tokens stage).head? = some "paste" ∧ outcome.success = true then
      m.environment.clipboard.text?
    else none
  | _ => none

/-- A stage begins that boots the machine again. -/
def boots (m : Moment) : Bool :=
  match m.deed with
  | .begins stage =>
    (Line.tokens stage).head? = some "reboot" || (Line.tokens stage).head? = some "reset"
  | _ => false

/-- The line being edited after this moment. -/
def edits (editor : Editor) (m : Moment) : Editor :=
  match m.line?, m.pasted? with
  | some line, _ => Editor.echo line.toList
  | none, some text => editor.paste text.toList
  | none, none => editor

end Moment

namespace Course

/-- The texts that were pasted, in order. -/
def pasted (course : Course) : List String :=
  course.filterMap Moment.pasted?

/-- The line being edited after everything that happens. -/
def edits (course : Course) (editor : Editor) : Editor :=
  course.foldl Moment.edits editor

/-- The edits of two parts are made one after the other. -/
theorem edits_append (a b : Course) (editor : Editor) :
    Course.edits (a ++ b) editor = b.edits (a.edits editor) :=
  List.foldl_append

/-- As long as no script hands over a line, what is pasted comes behind what was there. -/
theorem edits_of_no_lines {course : Course} (h : course.lines = []) (text : List Char)
    (kept : Bool) :
    course.edits (.atEnd text kept) =
      .atEnd (text ++ (String.join course.pasted).toList) (kept || course.pasted ≠ []) := by
  -- for every text, since each paste moves the cursor on
  induction course generalizing text kept with
  | nil => simp [edits, pasted]
  | cons m course ih =>
    obtain ⟨hline, hlines⟩ : m.line? = none ∧ Course.lines course = [] := by
      rw [lines_cons, List.append_eq_nil_iff, Option.toList_eq_nil_iff] at h
      exact h
    have hcons : Course.edits (m :: course) (.atEnd text kept) =
      Course.edits course (Moment.edits (.atEnd text kept) m) := rfl
    cases hpasted : m.pasted? with
    | none =>
      have hsame : Course.pasted (m :: course) = Course.pasted course :=
        List.filterMap_cons_none hpasted
      have hedits : Moment.edits (.atEnd text kept) m = .atEnd text kept := by
        rw [Moment.edits, hline, hpasted]
      rw [hcons, hedits, hsame, ih hlines]
    | some more =>
      have hmore : Course.pasted (m :: course) = more :: Course.pasted course :=
        List.filterMap_cons_some hpasted
      have hedits : Moment.edits (.atEnd text kept) m = .atEnd (text ++ more.toList) true := by
        rw [Moment.edits, hline, hpasted]
        exact Editor.paste_atEnd text more.toList kept
      rw [hcons, hedits, hmore, ih hlines]
      simp

/-- The last line that a script hands over, and what happens after it. -/
def lastLine? : Course → Option (String × Course)
  | [] => none
  | m :: course =>
    match lastLine? course with
    | some last => some last
    | none => m.line?.map (·, course)

/-- A course without a last line has no lines. -/
theorem lines_of_lastLine?_eq_none {course : Course} (h : course.lastLine? = none) :
    course.lines = [] := by
  induction course with
  | nil => rfl
  | cons m course ih =>
    rw [lastLine?] at h
    cases hrest : lastLine? course with
    | some last =>
      rw [hrest] at h
      cases h
    | none =>
      rw [hrest] at h
      rw [lines_cons, ih hrest, Option.map_eq_none_iff.1 h]
      rfl

/-- The last script line takes the place of whatever was in the input. -/
theorem edits_of_lastLine? {course later : Course} {line : String}
    (h : course.lastLine? = some (line, later)) (editor : Editor) :
    later.lines = [] ∧ course.edits editor = later.edits (.atEnd line.toList false) := by
  induction course generalizing editor with
  | nil => cases h
  | cons m course ih =>
    rw [lastLine?] at h
    have hcons : Course.edits (m :: course) editor =
      Course.edits course (Moment.edits editor m) := rfl
    -- does a line come later? then this moment is forgotten, whatever it does
    cases hrest : lastLine? course with
    | some last =>
      rw [hrest] at h
      obtain rfl : last = (line, later) := Option.some.inj h
      rw [hcons]
      exact ih hrest _
    | none =>
      rw [hrest] at h
      obtain ⟨handed, hline, hlast⟩ := Option.map_eq_some_iff.1 h
      obtain ⟨rfl, rfl⟩ := Prod.mk.inj hlast
      rw [hcons, Moment.edits, hline]
      exact ⟨lines_of_lastLine?_eq_none hrest, rfl⟩

end Course

/-- The line being edited is where the course leads to, and the session runs as before. -/
structure Edited (e : Environment) (course : Course) (f : Environment) : Prop where
  editor : f.session.editor = course.edits e.session.editor
  running : f.session.running = e.session.running

namespace Environment

/-- To have the line being edited that an environment has, as something to keep up. -/
def inputSince (e : Environment) : Upkeep :=
  ⟨Edited e [], fun _ => True, fun _ => True, fun _ => True⟩

/-- Ordinary steps and captures leave the input alone. -/
theorem inputSince_seamless (e : Environment) : e.inputSince.Seamless := by
  refine ⟨Upkeep.sound_of_steps fun f g hstep hf => ?_, fun hf => ⟨hf.editor, hf.running⟩,
    fun {f} hf => ?_⟩
  · cases hstep with
    | print line =>
      rw [Session.print_eq, Session.foldl_putRow_eq]
      exact ⟨hf.editor, hf.running⟩
    | clearScreen => exact ⟨hf.editor, hf.running⟩
    | changeDir => exact ⟨hf.editor, hf.running⟩
    | files => exact ⟨hf.editor, hf.running⟩
    | clip => exact ⟨hf.editor, hf.running⟩
  · rw [uncaptured, endCapture_eq]
    exact ⟨hf.editor, hf.running⟩

/-- What is printed and captured around a command changes no input. -/
theorem concluded_edited (name : String) (result : Except Failure Unit) (g : Environment) :
    Edited g [] (Registry.concluded name (result, g)).2 := by
  have hsame : g.inputSince.holds g := ⟨rfl, rfl⟩
  exact (inputSince_seamless g).concluded hsame name result

end Environment

namespace Edited

variable {e f g : Environment} {a b : Course}

/-- The input is edited in two parts. -/
theorem trans (hef : Edited e a f) (hfg : Edited f b g) : Edited e (a ++ b) g :=
  ⟨by rw [hfg.editor, hef.editor, Course.edits_append], hfg.running.trans hef.running⟩

/-- A moment that shows nothing. -/
theorem moment {m : Moment} (hline : m.line? = none) (hpasted : m.pasted? = none) :
    Edited e [m] e := by
  have hedits : Moment.edits e.session.editor m = e.session.editor := by
    rw [Moment.edits, hline, hpasted]
  exact ⟨hedits.symm, rfl⟩

end Edited

/-- A stage that is no paste pastes nothing. -/
theorem pasted?_ends_of_ne {stage : String} {scripts : Nat} {f : Environment} {outcome : Outcome}
    (h : (Line.tokens stage).head? ≠ some "paste") :
    Moment.pasted? ⟨.ends stage outcome, scripts, f⟩ = none :=
  if_neg fun hboth => h hboth.1

/-- A paste edits the input and leaves the session running. -/
theorem Edited.pasted (e : Environment) (text : String) :
    (e.pasted text).session.editor = e.session.editor.paste text.toList ∧
      (e.pasted text).session.running = e.session.running := by
  have hpasted : (e.pasted text).session =
      (e.session.record (.pasted text)).edit (·.paste text.toList) := rfl
  rw [hpasted, Session.edit, Session.renderInput_eq]
  exact ⟨rfl, rfl⟩

/-- A paste fails and leaves the input as it is, or inserts what is in the clipboard. -/
theorem runStage_paste_edited {d : Dispatcher} {stage : String} {args : List String}
    {scripts : Nat} {e f : Environment} {outcome : Outcome}
    (htokens : Line.tokens stage = "paste" :: args)
    (hrun : (registry.runStage d stage).run e = (outcome, f)) :
    Edited e [⟨.ends stage outcome, scripts, f⟩] f := by
  rcases runStage_paste_cases htokens hrun with
    ⟨failure, hconcluded⟩ | ⟨text, hclipboard, hconcluded⟩
  · -- the outcome says that it failed, so the moment does not count as a paste
    have hended := Environment.concluded_edited "paste" (.error failure) e.captured
    rw [hconcluded] at hended
    have hsuccess : outcome.success = false := (congrArg (·.1.success) hconcluded).symm
    have hnone : Moment.pasted? ⟨.ends stage outcome, scripts, f⟩ = none :=
      if_neg fun hboth => Bool.false_ne_true (hsuccess.symm.trans hboth.2)
    have hsame : Edited e [] f := ⟨hended.editor, hended.running⟩
    exact hsame.trans (Edited.moment rfl hnone)
  · -- the clipboard is read again when the stage is over, and a paste leaves it alone
    have hended := Environment.concluded_edited "paste" (.ok ()) (e.captured.pasted text)
    rw [hconcluded] at hended
    have hhead : (Line.tokens stage).head? = some "paste" := by rw [htokens]; rfl
    have hsuccess : outcome.success = true := (congrArg (·.1.success) hconcluded).symm
    have hkept : f.clipboard = e.clipboard := (congrArg (·.2.clipboard) hconcluded).symm
    have hsome : Moment.pasted? ⟨.ends stage outcome, scripts, f⟩ = some text := by
      have hread : f.clipboard.text? = some text := by rw [hkept, hclipboard]; rfl
      exact (if_pos ⟨hhead, hsuccess⟩).trans hread
    obtain ⟨heditor, hrunning⟩ := Edited.pasted e.captured text
    refine ⟨hended.editor.trans (heditor.trans ?_), hended.running.trans hrunning⟩
    show _ = Moment.edits e.session.editor ⟨.ends stage outcome, scripts, f⟩
    rw [Moment.edits, hsome]
    rfl

/-- A stage that runs no script, pastes nothing and does not boot leaves the input as it is. -/
theorem runStage_other_edited {d : Dispatcher} {stage : String} {scripts : Nat}
    {e f : Environment} {outcome : Outcome} (hscript : scriptOf? stage e = none)
    (hpaste : (Line.tokens stage).head? ≠ some "paste")
    (hboots : Moment.boots ⟨.begins stage, scripts, e⟩ = false)
    (hrun : (registry.runStage d stage).run e = (outcome, f)) : Edited e [] f := by
  have hkept : Edited e [] ((registry.runStage d stage).run e).2 := by
    refine (Environment.inputSince_seamless e).runStage hscript
      (fun c args hmem htokens hc => ?_) ⟨rfl, rfl⟩
    have hhead : (Line.tokens stage).head? = some c.name := by rw [htokens]; rfl
    simp only [Moment.boots, Bool.or_eq_false_iff, decide_eq_false_iff_not] at hboots
    -- four commands do more than ordinary steps; each of them is excluded by a hypothesis
    rcases ordinary_or hmem with hordinary | rfl | rfl | rfl | rfl
    · exact hordinary _ (Environment.inputSince_seamless e).toSound d args fun _ _ => trivial
    · exact absurd rfl hc
    · exact absurd hhead hpaste
    · exact absurd hhead hboots.1
    · exact absurd hhead hboots.2
  rwa [hrun] at hkept

/-- Unless the machine is booted, the input follows what scripts show and what is pasted. -/
theorem edited_law : CourseLaw fun _ _ e course f =>
    (∀ m ∈ course, m.boots = false) → Edited e course f where
  refl _ _ _ _ := ⟨rfl, rfl⟩
  trans hef hfg hboots := by
    obtain ⟨hfirst, hsecond⟩ := List.forall_mem_append.1 hboots
    exact (hef hfirst).trans (hfg hsecond)
  stdin _ _ _ _ _ := ⟨rfl, rfl⟩
  oneOf _ hef := hef
  stageOf _ _ hef := hef
  runs {line lines scripts e} _ _ _ := by
    -- a script line takes the place of the input, and nothing draws the prompt between lines
    have hechoed : (e.lineBegun line).session = (e.session.record (.echoed line)).edit
      fun _ => Editor.echo line.toList := rfl
    refine ⟨?_, ?_⟩
    · rw [hechoed, Session.edit, Session.renderInput_eq]
      rfl
    · rw [hechoed, Session.edit, Session.renderInput_eq]
      rfl
  stage {d stage scripts e f outcome} hscript hrun hboots := by
    have hbegins : Edited e [⟨.begins stage, scripts, e⟩] e := Edited.moment rfl rfl
    by_cases hpaste : (Line.tokens stage).head? = some "paste"
    · obtain ⟨args, htokens⟩ : ∃ args, Line.tokens stage = "paste" :: args :=
        List.head?_eq_some_iff.1 hpaste
      exact hbegins.trans (runStage_paste_edited htokens hrun)
    · have hother := runStage_other_edited hscript hpaste (hboots _ List.mem_cons_self) hrun
      have hends : Edited f [⟨.ends stage outcome, scripts, f⟩] f :=
        Edited.moment rfl (pasted?_ends_of_ne hpaste)
      exact hbegins.trans (hother.trans hends)
  script {stage args lines scripts e f g a result outcome} htokens _ hinside hends hboots := by
    have hinner : Edited e a g.shallower := by
      obtain ⟨-, hrest⟩ := List.forall_mem_cons.1 hboots
      have hran := hinside (List.forall_mem_append.1 hrest).1
      exact ⟨hran.editor, hran.running⟩
    have hended : Edited g.shallower [] f := by
      have hconcluded := Environment.concluded_edited "cmd" result g.shallower
      rwa [hends] at hconcluded
    have hpaste : (Line.tokens stage).head? ≠ some "paste" := by
      rw [htokens]
      simp
    have hbegins : Edited e [⟨.begins stage, scripts, e⟩] e := Edited.moment rfl rfl
    have hmoment : Edited f [⟨.ends stage outcome, scripts, f⟩] f :=
      Edited.moment rfl (pasted?_ends_of_ne hpaste)
    exact hbegins.trans (hinner.trans (hended.trans hmoment))

/-! ## The next prompt -/

namespace Terminal

/-- The course of the line that is submitted next. -/
def course (t : Terminal) : Course :=
  lineCourse Registry.nesting 0 t.session.commit.1 t.lineEnvironment

/-- The input and the cursor at the next prompt, if the machine is not booted. -/
theorem editor_submit {t : Terminal} (hregistry : t.registry = Commands.registry)
    (haccepts : t.session.acceptsInput = true) (hboots : ∀ m ∈ t.course, m.boots = false) :
    t.submit.2.session.editor = (Course.edits t.course (.atEnd [] false)).atPrompt := by
  have hedited : Edited t.lineEnvironment t.course t.lineLeaves := by
    rw [lineLeaves, hregistry]
    exact edited_law.line Registry.nesting 0 t.session.commit.1 t.lineEnvironment hboots
  have hsession : t.lineEnvironment.session = t.lineSession := session_lineEnvironment t
  have hcommitted : t.lineSession.editor = .atEnd [] false ∧
      t.lineSession.running = t.session.running := by
    rw [lineSession, Session.commit_eq, Session.ensureRow_eq]
    exact ⟨rfl, rfl⟩
  have hrunning : t.lineLeaves.session.running = true := by
    rw [hedited.running, hsession, hcommitted.2]
    simp only [Session.acceptsInput, Bool.and_eq_true] at haccepts
    exact haccepts.1.1
  rw [session_submit hrunning, Session.editor_drawPrompt]
  show t.lineLeaves.session.editor.atPrompt = _
  rw [hedited.editor, hsession, hcommitted.1]

/-- Unless the machine is booted while the line runs, the next prompt starts with the cursor behind
what was pasted, in order, if no script hands over a line. Otherwise it starts empty if nothing was
pasted after the last script line, and else with that line and what was pasted after it. -/
theorem submit_input {t : Terminal} (hregistry : t.registry = Commands.registry)
    (haccepts : t.session.acceptsInput = true) (hboots : ∀ m ∈ t.course, m.boots = false) :
    let editor := t.submit.2.session.editor
    editor.cursor = editor.input.length ∧
      String.ofList editor.input =
        match t.course.lastLine? with
        | none => String.join t.course.pasted
        | some (line, later) =>
          if later.pasted = [] then "" else line ++ String.join later.pasted := by
  intro editor
  have heditor : editor = (Course.edits t.course (.atEnd [] false)).atPrompt :=
    editor_submit hregistry haccepts hboots
  -- a prompt empties the input unless it was kept, and only a paste keeps it
  cases hlast : t.course.lastLine? with
  | none =>
    have hlines := Course.lines_of_lastLine?_eq_none hlast
    rw [heditor, Course.edits_of_no_lines hlines, Editor.atPrompt_atEnd]
    refine ⟨Editor.cursor_atEnd _ _, ?_⟩
    by_cases hnone : t.course.pasted = []
    · rw [hnone]
      rfl
    · simp [Editor.atEnd, hnone, -String.toList_join]
  | some last =>
    obtain ⟨line, later⟩ := last
    obtain ⟨hlines, hedits⟩ := Course.edits_of_lastLine? hlast (.atEnd [] false)
    rw [heditor, hedits, Course.edits_of_no_lines hlines, Editor.atPrompt_atEnd]
    refine ⟨Editor.cursor_atEnd _ _, ?_⟩
    by_cases hnone : later.pasted = []
    · simp [Editor.atEnd, hnone, -String.toList_join]
    · simp [Editor.atEnd, hnone, -String.toList_join]

/-- A line that pastes twice, with other output in between. -/
theorem submit_input_pasted_twice :
    String.ofList (small.type "paste;echo a;paste").submit.2.session.editor.input = "xx" := by
  have hregistry : (small.type "paste;echo a;paste").registry = Commands.registry :=
    (reached_small.type _).atPrompt.registry
  have hcourse : (small.type "paste;echo a;paste").session.acceptsInput = true ∧
      (∀ m ∈ (small.type "paste;echo a;paste").course, m.boots = false) ∧
        (small.type "paste;echo a;paste").course.lastLine?.isNone = true ∧
          (small.type "paste;echo a;paste").course.pasted = ["x", "x"] := by decide +kernel
  obtain ⟨haccepts, hboots, hlast, hpasted⟩ := hcourse
  have hinput := (submit_input hregistry haccepts hboots).2
  rw [Option.isNone_iff_eq_none.1 hlast, hpasted] at hinput
  exact hinput

/-- A terminal with a letter in its clipboard and a file that holds the line `paste`, which is about
to be run as a script. -/
def pasting : Terminal :=
  ((small.type "write /s 1 paste").press { key := .enter }).type "cmd run /s"

/-- The script line is in the input at the next prompt, in front of the letter that it pasted. -/
theorem script_line_left_in_input :
    Reached pasting ∧ pasting.session.acceptsInput = true ∧
      (∀ m ∈ pasting.course, m.boots = false) ∧ pasting.course.pasted = ["x"] ∧
      String.ofList pasting.submit.2.session.editor.input = "pastex" ∧
      String.ofList pasting.submit.2.session.editor.input ≠ String.join pasting.course.pasted :=
  ⟨((reached_small.type _).press _).type _, by decide +kernel⟩

end Terminal

end SimTerm

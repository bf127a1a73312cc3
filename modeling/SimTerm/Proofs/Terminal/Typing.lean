import SimTerm.Proofs.Terminal.Output
import SimTerm.Proofs.Terminal.Reboot

/-!
# What is typed is what runs and is remembered

A line is typed one key after the other, and each of its characters that is no line break comes into
the input at the cursor (`editor_inserts`). So a line typed into an empty input is submitted as it
is, by the key as by the call: `runLine_eq`.

A submitted line is entered into the history when it is committed, before it runs. Nothing that it
does while it runs enters a line or takes one out, as no step of a command does
(`RemembersAlike`). So whatever a user does, the history has the lines that were committed and are
not blank: `entries_performAll`.
-/

namespace SimTerm

namespace Editor

/-! ## Typing into the editor -/

/-- What is put in comes behind what stands before the cursor, also if that is out of range. -/
theorem before_put (e : Editor) (text : List Char) : (e.put text).before = e.before ++ text := by
  rw [before, put]
  dsimp only
  rcases Nat.le_total e.cursor e.input.length with hle | hle
  · have hlength : (e.before ++ text).length = e.cursor + text.length := by
      rw [List.length_append, before, List.length_take_of_le hle]
    rw [← hlength, List.take_left]
  · have hafter : e.after = [] := List.drop_eq_nil_of_le hle
    have hbefore : e.before = e.input := List.take_of_length_le hle
    rw [hafter, List.append_nil, List.take_of_length_le]
    rw [List.length_append, hbefore]
    exact Nat.add_le_add_right hle _

/-- What is put in comes before what stood behind the cursor. -/
theorem after_put (e : Editor) (text : List Char) : (e.put text).after = e.after := by
  have hwhole : (e.put text).before ++ (e.put text).after = (e.put text).before ++ e.after := by
    rw [before, after, List.take_append_drop, ← before, before_put]
    rfl
  exact List.append_cancel_left hwhole

/-- Two texts that are put in one after the other are one text. -/
theorem put_put (e : Editor) (text more : List Char) :
    (e.put text).put more = e.put (text ++ more) := by
  rw [put, before_put, after_put, put, put]
  simp [Nat.add_assoc]

theorem put_nil (e : Editor) : e.put [] = e := by
  rw [put, List.append_nil, before, after, List.take_append_drop]
  rfl

end Editor

namespace Session

/-- The characters of a text that do not end a line. -/
def typable (text : List Char) : List Char :=
  text.filter fun c => c ≠ '\r' ∧ c ≠ '\n'

/-- A typed character draws the prompt row and no other. -/
theorem insert_editsLine (s : Session) (c : Char) : s.EditsLine (s.insert c) := by
  unfold insert
  split
  · exact .refl s
  · exact s.edit_editsLine _

/-- Typed characters draw the prompt row and no other, by induction on the text. -/
theorem inserts_editsLine (s : Session) (text : List Char) :
    s.EditsLine (text.foldl insert s) := by
  induction text generalizing s with
  | nil => exact .refl s
  | cons c text ih => exact (s.insert_editsLine c).trans (ih (s.insert c))

/-- The characters come into the input one behind the other. -/
theorem editor_inserts (s : Session) (text : List Char) :
    (text.foldl insert s).editor = s.editor.put (typable text) := by
  induction text generalizing s with
  | nil => exact s.editor.put_nil.symm
  | cons c text ih =>
    rw [List.foldl_cons, ih, editor_insert, typable, typable]
    by_cases hbreak : c = '\r' ∨ c = '\n'
    · rw [if_pos (by simpa [Editor.isBreak] using hbreak),
        List.filter_cons_of_neg (by simpa [← not_or] using hbreak)]
    · rw [if_neg (by simpa [Editor.isBreak] using hbreak), Editor.put_put,
        List.filter_cons_of_pos (by simpa [← not_or] using hbreak)]
      rfl

/-! ## The lines of the history -/

/-- Printing enters nothing into the history. -/
theorem history_print (s : Session) (line : String) : (s.print line).history = s.history := by
  obtain ⟨_, _, _, hframe⟩ := s.print_frame line
  rw [hframe]

theorem history_drawPrompt (s : Session) : s.drawPrompt.history = s.history := by
  obtain ⟨_, _, _, hframe⟩ := s.drawPrompt_frame
  rw [hframe]

theorem history_edit (s : Session) (change : Editor → Editor) :
    (s.edit change).history = s.history := by
  rw [edit, renderInput_eq]

/-- A reboot forgets no entry of the history. -/
theorem entries_rebooted (s : Session) (lines : List String) :
    (s.rebooted lines).history.entries = s.history.entries := by
  obtain ⟨_, _, _, hframe⟩ := s.rebooted_frame lines
  rw [hframe]

/-- Committing the input enters it, unless it is blank. -/
theorem entries_commit (s : Session) :
    s.commit.2.history.entries =
      s.history.entries ++ [s.commit.1].filter (History.IsKept ·) := by
  rw [commit_eq, ensureRow_eq]
  exact s.history.entries_push _

end Session

open Session

/-! ## Lines that run -/

/-- The lines entered before are the same, and no others. -/
def Environment.RemembersAlike (e f : Environment) : Prop :=
  f.session.history.entries = e.session.history.entries

/-- No step of a command enters anything into the history. -/
theorem commandStep_remembersAlike {e f : Environment} (h : CommandStep e f) :
    e.RemembersAlike f := by
  cases h with
  | print line => exact congrArg History.entries (e.session.history_print line)
  | echo line => exact congrArg History.entries (history_edit (e.session.record (.echoed line)) _)
  | paste text hread =>
    exact congrArg History.entries (history_edit (e.session.record (.pasted text)) _)
  | reboot =>
    have hsession := e.toMachine.session_reboot
    exact (congrArg (·.history.entries) hsession).trans (e.session.entries_rebooted _)
  | clearScreen | changeDir | files | clip | charge | deeper | shallower => rfl

instance : LineClosed Environment.RemembersAlike where
  refl _ := rfl
  trans hef hfg := hfg.trans hef
  step := commandStep_remembersAlike
  stdin _ _ := rfl
  capture {e f} h := by
    have hcaptured : f.session.history.entries = e.session.history.entries := h
    rw [Environment.RemembersAlike, Environment.uncaptured, endCapture_eq]
    exact hcaptured

namespace Terminal

/-- A line enters nothing into the history but what committing it did. -/
theorem entries_lineLeaves {t : Terminal} (hregistry : t.registry = Commands.registry) :
    t.lineLeaves.session.history.entries = t.session.commit.2.history.entries := by
  have hran : t.lineEnvironment.RemembersAlike t.lineLeaves := by
    rw [lineLeaves, hregistry]
    exact Registry.execute_keeps Commands.registry_stepwise _ _
  exact hran.trans (congrArg (·.history.entries) t.session_lineEnvironment)

/-- A submitted line enters the input, and whatever it runs enters nothing else. -/
theorem entries_submit {t : Terminal} (hregistry : t.registry = Commands.registry) :
    t.submit.2.session.history.entries =
      t.session.history.entries ++ [t.session.commit.1].filter (History.IsKept ·) := by
  rw [← entries_commit, ← entries_lineLeaves hregistry]
  rcases t.session_submit_cases with hsession | hsession
  · rw [hsession, history_drawPrompt]
  · rw [hsession]

/-! ## Keys -/

/-- Enter submits the line, with any modifiers. -/
theorem press_enter {p : KeyPress} (hkey : p.key = .enter) (t : Terminal) :
    t.press p = if t.session.acceptsInput then t.submit.2 else t := by
  have hreboots : p.reboots = false := by simp [KeyPress.reboots, hkey]
  have hclears : p.clearsScreen = false := by simp [KeyPress.clearsScreen, hkey]
  cases haccepts : t.session.acceptsInput with
  | false => exact press_eq_self hreboots haccepts
  | true =>
    rw [press, hreboots, if_neg Bool.false_ne_true, haccepts, hclears, if_pos hkey]
    rfl

/-- A character typed without modifiers is inserted. -/
theorem press_typed {t : Terminal} (h : t.session.acceptsInput = true) (c : Char) :
    t.press (.typed c) = t.onSession (·.insert c) :=
  press_eq_editKey rfl h rfl Key.noConfusion

/-- A key that is not Enter enters no line. -/
theorem entries_press_of_ne {p : KeyPress} (hkey : p.key ≠ .enter) (t : Terminal) :
    (t.press p).session.history.entries = t.session.history.entries := by
  unfold press
  split
  · have hsession := t.machine.session_reboot
    exact (congrArg (·.history.entries) hsession).trans (t.session.entries_rebooted _)
  · split
    · rfl
    · split
      · exact congrArg History.entries (history_drawPrompt t.session.clearScreen)
      · exact (editKey_editsLine p t.session).entries

/-- Typing a text inserts its characters. -/
theorem type_eq {t : Terminal} (h : t.session.acceptsInput = true) (text : String) :
    t.type text = t.onSession fun s => text.toList.foldl Session.insert s := by
  unfold type
  -- a character that is inserted leaves a session that accepts the next one
  induction text.toList generalizing t with
  | nil => rfl
  | cons c text ih =>
    have haccepts : (t.onSession (·.insert c)).session.acceptsInput = true :=
      (t.session.insert_editsLine c).acceptsInput.trans h
    rw [List.foldl_cons, press_typed h, ih haccepts]
    rfl

/-- What typing a text does to a terminal that accepts input. -/
structure Types (text : List Char) (t u : Terminal) : Prop where
  acceptsInput : u.session.acceptsInput = true
  registry : u.registry = t.registry
  editor : u.session.editor = t.session.editor.put (typable text)
  entries : u.session.history.entries = t.session.history.entries

/-- Typing inserts the characters of the text, by induction on the text. -/
theorem type_types {t : Terminal} (h : t.session.acceptsInput = true) (text : String) :
    Types text.toList t (t.type text) := by
  have hline := t.session.inserts_editsLine text.toList
  rw [type_eq h]
  exact ⟨hline.acceptsInput.trans h, rfl, t.session.editor_inserts text.toList, hline.entries⟩

/-! ## What a user does -/

/-- A key is pressed, or a line is run in one call. -/
inductive Act where
  | press (p : KeyPress)
  | runLine (line : String)
deriving DecidableEq, Repr

/-- The terminal after something was done. -/
def perform (t : Terminal) : Act → Terminal
  | .press p => t.press p
  | .runLine line => (t.runLine line).2

/-- The terminal after some things were done, one after the other. -/
def performAll (t : Terminal) (acts : List Act) : Terminal :=
  acts.foldl perform t

/-- The line that is committed by what is done, if input is accepted: the input, with the line that
is run put in at the cursor. -/
def committed (t : Terminal) (act : Act) : Option String :=
  if t.session.acceptsInput then
    match act with
    | .press p => if p.key = .enter then some (String.ofList t.session.editor.input) else none
    | .runLine line =>
      let e := t.session.editor
      some (String.ofList (e.before ++ typable line.toList ++ e.after))
  else none

/-- The lines that are committed by what is done, in order. -/
def allCommitted (t : Terminal) : List Act → List String
  | [] => []
  | act :: acts => (t.committed act).toList ++ (t.perform act).allCommitted acts

theorem registry_press (t : Terminal) (p : KeyPress) : (t.press p).registry = t.registry :=
  press_induction (P := fun u => u.registry = t.registry) p rfl rfl rfl t.registry_submit rfl

theorem registry_perform (t : Terminal) (act : Act) : (t.perform act).registry = t.registry := by
  cases act with
  | press p => exact t.registry_press p
  | runLine line =>
    have htyped : (t.type line).registry = t.registry :=
      type_induction (P := fun u => u.registry = t.registry)
        (fun u p hu => (u.registry_press p).trans hu) rfl line
    rw [perform, runLine]
    split
    · exact (registry_submit _).trans htyped
    · rfl

/-- What is done once enters the committed line, if there is one that is not blank. -/
theorem entries_perform {t : Terminal} (hregistry : t.registry = Commands.registry) (act : Act) :
    (t.perform act).session.history.entries =
      t.session.history.entries ++ (t.committed act).toList.filter (History.IsKept ·) := by
  cases haccepts : t.session.acceptsInput with
  | false =>
    have hnone : t.committed act = none := by
      unfold committed
      rw [haccepts]
      rfl
    have hsame : (t.perform act).session.history.entries = t.session.history.entries := by
      cases act with
      | press p =>
        -- Enter does nothing here, but a key that reboots still does
        by_cases hkey : p.key = .enter
        · rw [perform, press_enter hkey, haccepts]
          rfl
        · exact entries_press_of_ne hkey t
      | runLine line =>
        rw [perform, runLine, haccepts]
        rfl
    rw [hnone, hsame]
    exact (List.append_nil _).symm
  | true =>
    cases act with
    | press p =>
      rw [committed, if_pos haccepts, perform]
      split
      · next hkey =>
        rw [press_enter hkey, if_pos haccepts]
        exact entries_submit hregistry
      · next hkey =>
        rw [entries_press_of_ne hkey]
        exact (List.append_nil _).symm
    | runLine line =>
      have htypes := type_types haccepts line
      have hline : (t.type line).session.commit.1 = String.ofList
          (t.session.editor.before ++ typable line.toList ++ t.session.editor.after) :=
        congrArg (fun e : Editor => String.ofList e.input) htypes.editor
      rw [committed, if_pos haccepts, perform, runLine, if_pos haccepts,
        entries_submit (htypes.registry.trans hregistry), htypes.entries, hline]
      rfl

/-- The history has all committed lines that are not blank, by induction on what is done. -/
theorem entries_performAll {t : Terminal} (hregistry : t.registry = Commands.registry)
    (acts : List Act) :
    (t.performAll acts).session.history.entries =
      t.session.history.entries ++ (t.allCommitted acts).filter (History.IsKept ·) := by
  induction acts generalizing t with
  | nil => exact (List.append_nil _).symm
  | cons act acts ih =>
    have hnext : (t.perform act).registry = Commands.registry :=
      (t.registry_perform act).trans hregistry
    rw [allCommitted, List.filter_append, ← List.append_assoc, ← entries_perform hregistry]
    exact ih hnext

/-! ## The line that runs -/

/-- The terminal when a line has left this environment. -/
def resumed (t : Terminal) (e : Environment) : Terminal :=
  let session := { e.session with busy := false }
  { t with machine := { e.toMachine with
    session := if session.running then session.drawPrompt else session } }

/-- Submitting the input runs it as one line. -/
theorem submit_runs (t : Terminal) :
    let ran := (t.registry.execute (String.ofList t.session.editor.input)).run t.lineEnvironment
    t.submit = (ran.1, t.resumed ran.2) := by
  unfold submit resumed lineEnvironment lineSession
  -- how a line is run does not matter here, and unfolding it would take long
  generalize t.registry.execute = execute
  rfl

/-- Where input is accepted, a line is run by typing and submitting it. -/
theorem runLine_eq {t : Terminal} (h : t.session.acceptsInput = true) (line : String) :
    t.runLine line = (t.type line).submit :=
  if_pos h

/-- In any terminal that accepts input and has none yet, running a line in one call runs the line
without its line breaks, from the terminal into which it was typed, and ends as pressing a key for
each of its characters and then Enter does. And in any terminal with the built-in commands, whatever
keys are pressed and lines are run, the history has in addition exactly the committed lines that are
not blank, in order, whatever they do when they run. -/
theorem typed_line_runs_and_is_remembered (t : Terminal) :
    (t.session.acceptsInput = true → t.session.editor.input = [] → ∀ line : String,
      let typed := t.type line
      let dispatched := String.ofList (line.toList.filter fun c => c ≠ '\r' ∧ c ≠ '\n')
      let ran := (t.registry.execute dispatched).run typed.lineEnvironment
      t.runLine line = (ran.1, typed.resumed ran.2) ∧
        (t.runLine line).2 =
          (line.toList.map KeyPress.typed ++ [KeyPress.mk .enter {}]).foldl press t) ∧
      (t.registry = Commands.registry → ∀ acts,
        (t.performAll acts).session.history.entries =
          t.session.history.entries ++ (t.allCommitted acts).filter (History.IsKept ·)) := by
  refine ⟨fun haccepts hempty line => ?_, fun hregistry => entries_performAll hregistry⟩
  intro typed dispatched ran
  have htypes : Types line.toList t typed := type_types haccepts line
  have hinput : String.ofList typed.session.editor.input = dispatched := by
    have hbefore : t.session.editor.before = [] := by rw [Editor.before, hempty, List.take_nil]
    have hafter : t.session.editor.after = [] := by rw [Editor.after, hempty, List.drop_nil]
    rw [htypes.editor, Editor.put, hbefore, hafter, List.nil_append, List.append_nil]
    rfl
  refine ⟨?_, ?_⟩
  · rw [runLine_eq haccepts, submit_runs, hinput, htypes.registry]
  · have henter : typed.press { key := .enter } = typed.submit.2 := by
      rw [press_enter rfl, if_pos htypes.acceptsInput]
    rw [runLine_eq haccepts, ← henter, List.foldl_append, List.foldl_map]
    rfl

/-- A script is written and run, a blank line is run, the screen is cleared by a line that is typed
key by key, everything is reset, and this line is fetched from the history and run again. -/
def busyDay : List Act :=
  [.runLine "write /s 1 echo hi;cmd run /s", .runLine " \r\n"] ++
    "clear".toList.map (fun c => .press (.typed c)) ++
    [.press ⟨.enter, {}⟩, .runLine "reset", .press ⟨.up, {}⟩, .press ⟨.enter, {}⟩]

/-- A line break in a line is not run. No line of the script is remembered, nor the blank line, and
neither clearing nor resetting takes a line away. -/
theorem typed_line_runs_and_is_remembered_busyDay :
    small.session.acceptsInput = true ∧ small.session.editor.input = [] ∧
      (small.runLine "echo a\r\nb").1 = [⟨"echo", true, "ab"⟩] ∧
      (small.performAll busyDay).session.history.entries =
        ["write /s 1 echo hi;cmd run /s", "clear", "reset", "reset"] := by
  have hready : small.session.acceptsInput = true ∧ small.session.editor.input = [] := by
    decide +kernel
  obtain ⟨hruns, hremembers⟩ := typed_line_runs_and_is_remembered small
  refine ⟨hready.1, hready.2, ?_, ?_⟩
  · rw [(hruns hready.1 hready.2 "echo a\r\nb").1]
    decide +kernel
  · rw [hremembers rfl busyDay]
    decide +kernel

end Terminal

end SimTerm

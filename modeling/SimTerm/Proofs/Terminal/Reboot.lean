import SimTerm.Proofs.Session.Printing
import SimTerm.Proofs.Session.Steady
import SimTerm.Terminal

/-!
# What a reboot resets

A reboot wipes the session, prints what the boot sequence prints, and draws a new prompt; whatever
else the steps of the sequence are, they leave the session alone (`foldl_bootStep`). Each of these
changes few fields of the session and none outside it, so all other fields are as they were:
`session_reboot`. The screen starts blank, so that only the printed lines and the prompt stand on it
in the end: `reboot_resets`.
-/

namespace SimTerm

/-- The line that a step of a boot sequence prints. -/
def BootStep.line? : BootStep → Option String
  | .print line => some line
  | _ => none

namespace Session

/-! ## The fields that change -/

/-- Printing changes the screen and the place of the next row, the captures and the log. -/
theorem print_frame (s : Session) (line : String) :
    ∃ screen outRow log, s.print line =
      { s with captures := s.captures.map (line :: ·), screen, outRow, log } := by
  rw [print_eq, foldl_putRow_eq]
  exact ⟨_, _, _, rfl⟩

/-- Printing lines changes the screen, the captures and the log, and nothing else. -/
theorem prints_frame (s : Session) (lines : List String) :
    ∃ screen outRow log, lines.foldl print s =
      { s with captures := s.captures.map (lines.reverse ++ ·), screen, outRow, log } := by
  induction lines generalizing s with
  | nil => exact ⟨s.screen, s.outRow, s.log, by simp⟩
  | cons line lines ih =>
    obtain ⟨_, _, _, hline⟩ := s.print_frame line
    obtain ⟨screen, outRow, log, hlines⟩ := ih (s.print line)
    refine ⟨screen, outRow, log, ?_⟩
    rw [List.foldl_cons, hlines, hline]
    simp [Function.comp_def]

/-- A new prompt changes the screen, the place of the next row, the editor and the log. -/
theorem drawPrompt_frame (s : Session) :
    ∃ screen outRow log,
      s.drawPrompt = { s with editor := s.editor.atPrompt, screen, outRow, log } := by
  rw [drawPrompt_eq, renderInput_eq, ensureRow_eq]
  exact ⟨_, _, _, rfl⟩

/-! ## The rows below the prompt -/

/-- The prompt row takes one of the rows below the output, if there is one. -/
theorem below_drawPrompt {s : Session} (h : s.Sound) :
    s.drawPrompt.screen.grid.drop (s.drawPrompt.outRow + 1) = s.rowsBelow.drop 1 := by
  let start : Session := { s with editor := s.editor.atPrompt }
  have hstart : start.Sound := ⟨h.screen, h.outRow_le⟩
  -- the text of the prompt comes into its row like a row of output
  have hput : start.ensureRow.prompting.screen.grid.drop (start.ensureRow.prompting.outRow + 1) =
      s.rowsBelow.drop 1 := rowsBelow_putRow hstart start.ensureRow.prompt.toList
  have hlt := (prompting_prompted hstart).outRow_lt
  rw [drawPrompt_eq, outRow_renderInput, screen_renderInput, ← hput]
  show ((start.ensureRow.prompting.screen.setRow _ _).grid).drop _ = _
  have hprompt : start.ensureRow.prompting.promptRow = start.ensureRow.prompting.outRow :=
    Nat.min_eq_left (by omega)
  rw [hprompt, Screen.grid_setRow hlt, List.drop_set_of_lt (Nat.lt_succ_self _)]

/-- A new prompt comes between the rows of output and the rows below them. -/
theorem grid_drawPrompt {s : Session} (h : s.Sound) :
    s.drawPrompt.screen.grid =
      s.drawPrompt.rowsAbove ++ s.drawPrompt.inputRow :: s.rowsBelow.drop 1 := by
  have hprompted := drawPrompt_prompted h
  have hlt : s.drawPrompt.outRow < s.drawPrompt.screen.grid.length := by
    rw [hprompted.sound.screen.length]
    exact hprompted.outRow_lt
  have hrow : s.drawPrompt.screen.grid[s.drawPrompt.outRow] = s.drawPrompt.inputRow := by
    have hshows := (drawPrompt_inStep h.screen).shows
    have hlast : s.drawPrompt.outRow ≤ s.drawPrompt.screen.rows - 1 :=
      Nat.le_sub_one_of_lt hprompted.outRow_lt
    rw [Nat.min_eq_left hlast, List.getElem?_eq_getElem hlt] at hshows
    exact Option.some.inj hshows
  rw [rowsAbove, ← hrow, ← below_drawPrompt h, List.getElem_cons_drop, List.take_append_drop]

/-- A new prompt is where output would go next, or on the last row. -/
theorem outRow_drawPrompt {s : Session} (h : s.Sound) :
    s.drawPrompt.outRow = min s.outRow (s.screen.rows - 1) := by
  have hle := h.outRow_le
  rw [drawPrompt_eq, outRow_renderInput]
  show (ensureRow { s with editor := s.editor.atPrompt }).outRow = _
  rw [outRow_ensureRow]
  dsimp only
  split <;> omega

/-! ## Booting -/

/-- The session in which the boot sequence of a reboot starts. -/
def booting (s : Session) : Session :=
  { s.stop.resetHard with bootMode := true }

/-- A session that starts with a new prompt after a boot sequence printed these lines. -/
def rebooted (s : Session) (lines : List String) : Session :=
  start { lines.foldl print s.booting with bootMode := false }

/-- What a reboot changes of a session, and that it changes nothing else. -/
theorem rebooted_frame (s : Session) (lines : List String) :
    ∃ screen outRow log, s.rebooted lines =
      { s with
        running := true, bootMode := false, editor := {}
        history := { s.history with position := none }
        captures := s.captures.map (lines.reverse ++ ·), screen, outRow, log } := by
  obtain ⟨_, _, _, hlines⟩ := s.booting.prints_frame lines
  obtain ⟨screen, outRow, log, hprompt⟩ :=
    drawPrompt_frame { lines.foldl print s.booting with bootMode := false, running := true }
  refine ⟨screen, outRow, log, ?_⟩
  rw [rebooted, start, hprompt, hlines]
  rfl

/-- The rows of the screen after a reboot. -/
theorem grid_rebooted {s : Session} (h : s.screen.Shaped) (lines : List String) :
    let printed := printedRows s.screen.cols (lines.map .printed)
    let shown := min printed.length (s.screen.rows - 1)
    (s.rebooted lines).screen.grid =
        lastRows shown printed ++ (s.rebooted lines).inputRow ::
          List.replicate (s.screen.rows - 1 - shown) (Row.blank s.screen.cols) ∧
      (s.rebooted lines).screen.rows = s.screen.rows ∧
      (s.rebooted lines).screen.cols = s.screen.cols ∧
      (s.rebooted lines).screen.shown = (s.rebooted lines).screen.grid := by
  intro printed shown
  have hbooting : s.booting.Sound := ⟨h.clear.present, Nat.zero_le _⟩
  have hput := putLines hbooting lines
  -- the log goes to a cleared screen, so that all output on it is what was printed
  let ready : Session := { lines.foldl print s.booting with bootMode := false, running := true }
  have hready : ready.Sound := ⟨hput.extended.sound.screen, hput.extended.sound.outRow_le⟩
  have hrows : ready.screen.rows = s.screen.rows := hput.extended.rows
  have hprompted : Prompted ready (s.rebooted lines) := drawPrompt_prompted hready
  -- on a full screen the prompt takes one row from the log, on any other it goes below
  have hplace : (s.rebooted lines).outRow = shown := by
    have hlines : ready.outRow = min s.screen.rows (0 + printed.length) := hput.scrolled.outRow
    have hprompt : (s.rebooted lines).outRow = min ready.outRow (ready.screen.rows - 1) :=
      outRow_drawPrompt hready
    omega
  have habove : (s.rebooted lines).rowsAbove = lastRows shown printed := by
    have hnothing : s.booting.Shows [] := ⟨Nat.le_refl _, rfl⟩
    have hlines := hput.shows hnothing
    rw [← hplace]
    exact (hprompted.shows printed ⟨hlines.enough, hlines.above⟩).above
  have hbelow : ready.rowsBelow.drop 1 =
      List.replicate (s.screen.rows - 1 - shown) (Row.blank s.screen.cols) := by
    have hlines : ready.rowsBelow =
        (List.replicate s.screen.rows (Row.blank s.screen.cols)).drop printed.length := hput.below
    rw [hlines, List.drop_drop, List.drop_replicate]
    congr 1
    omega
  refine ⟨?_, hprompted.rows.trans hrows, hprompted.cols.trans hput.extended.cols,
    (drawPrompt_inStep hready.screen).seen⟩
  rw [← habove, ← hbelow]
  exact grid_drawPrompt hready

end Session

namespace Machine

/-! ## The steps of a boot sequence -/

/-- Only the printed lines matter for a session that does not run. -/
theorem session_bootSteps (steps : List BootStep) {m : Machine} (h : m.session.running = false) :
    (steps.foldl bootStep m).session =
      (steps.filterMap BootStep.line?).foldl Session.print m.session := by
  induction steps generalizing m with
  | nil => rfl
  | cons step steps ih =>
    cases step with
    | print line =>
      have hline : (m.session.print line).running = false := by
        obtain ⟨_, _, _, hframe⟩ := m.session.print_frame line
        rw [hframe]
        exact h
      exact ih (m := m.bootStep (.print line)) hline
    | sleep length => exact ih (m := m.bootStep (.sleep length)) h
    | blink =>
      -- the caret of a stopped session does not turn
      have hblink : m.session.blink = m.session := by
        rw [Session.blink, h]
        rfl
      have hstep : m.bootStep .blink = m := congrArg (fun session => { m with session }) hblink
      rw [List.foldl_cons, hstep]
      exact ih h

/-- A boot sequence changes the session and adds pauses. -/
theorem bootSteps_frame (steps : List BootStep) (m : Machine) :
    ∃ session pauses, steps.foldl bootStep m = { m with session, pauses } := by
  induction steps generalizing m with
  | nil => exact ⟨m.session, m.pauses, rfl⟩
  | cons step steps ih =>
    obtain ⟨session, pauses, hsteps⟩ := ih (m.bootStep step)
    refine ⟨session, pauses, ?_⟩
    rw [List.foldl_cons, hsteps]
    cases step <;> rfl

/-- The lines that the boot sequence prints in a reboot. -/
def rebootLines (m : Machine) : List String :=
  (m.boot true m.session.booting).filterMap BootStep.line?

/-- The session after a reboot is the one that was rebooted with the printed lines. -/
theorem session_reboot (m : Machine) : m.reboot.session = m.session.rebooted m.rebootLines := by
  have hstopped : ({ m with session := m.session.booting } : Machine).session.running = false := rfl
  have hsteps := session_bootSteps (m.boot true m.session.booting) hstopped
  exact congrArg (fun session => Session.start { session with bootMode := false }) hsteps

/-- A reboot changes the session and adds pauses. -/
theorem reboot_frame (m : Machine) :
    m.reboot = { m with session := m.reboot.session, pauses := m.reboot.pauses } := by
  obtain ⟨session, pauses, hsteps⟩ :=
    bootSteps_frame (m.boot true m.session.booting) { m with session := m.session.booting }
  have hreboot : m.reboot =
      { m with session := Session.start { session with bootMode := false }, pauses } :=
    congrArg
      (fun n : Machine => { n with session := Session.start { n.session with bootMode := false } })
      hsteps
  rw [hreboot]

end Machine

namespace Terminal

/-- A reboot, whatever the terminal was doing, changes nothing outside the session but the pauses,
and in the session nothing but the modes, the editor, the position in the history, the screen and
what collects the printed lines. It ends with a session that runs, shows no boot log, has an empty
input with the cursor at its start, and does not browse. The grid has its size, and shows the rows
of the lines that the boot sequence printed, each cut wherever a row is full, or as many of the last
ones as leave room for the prompt, then the prompt row, and nothing else. -/
theorem reboot_resets {t : Terminal} (hscreen : t.session.screen.Shaped) :
    let s := t.session
    let u := t.reboot
    let lines := (t.machine.boot true s.booting).filterMap BootStep.line?
    let printed := lines.flatMap fun line =>
      (wrapped s.screen.cols line.toList).map (Row.fit · s.screen.cols)
    let shown := min printed.length (s.screen.rows - 1)
    (∀ text : String, CutInto s.screen.cols text.toList (wrapped s.screen.cols text.toList)) ∧
      u = { t with machine := { t.machine with session := u.session, pauses := u.machine.pauses } } ∧
      u.session = { s with
        running := true, bootMode := false, editor := {}
        history := { s.history with position := none }
        captures := s.captures.map (lines.reverse ++ ·)
        screen := u.session.screen, outRow := u.session.outRow, log := u.session.log } ∧
      u.session.screen.rows = s.screen.rows ∧ u.session.screen.cols = s.screen.cols ∧
      u.session.screen.grid =
        printed.drop (printed.length - shown) ++ u.session.inputRow ::
          List.replicate (s.screen.rows - 1 - shown) (List.replicate s.screen.cols ' ') ∧
      u.session.screen.shown = u.session.screen.grid := by
  intro s u lines printed shown
  have hsession : u.session = s.rebooted lines := t.machine.session_reboot
  have hprinted : printedRows s.screen.cols (lines.map .printed) = printed :=
    Session.printedRows_lines s.screen.cols lines
  obtain ⟨screen, outRow, log, hframe⟩ := s.rebooted_frame lines
  -- the printed rows are told by `printedRows` there, and piece by piece here
  obtain ⟨hgrid, hrows, hcols, hseen⟩ := Session.grid_rebooted hscreen lines
  rw [hprinted, ← hsession] at hgrid
  rw [← hsession] at hframe hrows hcols hseen
  refine ⟨fun text => wrapped_cut hscreen.cols_pos text.toList,
    congrArg (fun machine => { t with machine }) t.machine.reboot_frame, ?_, hrows, hcols, hgrid,
    hseen⟩
  rw [hframe]

/-- A terminal that was stopped in the middle of a boot log, while its user browsed the history on a
screen that had become too small for the output on it. The log it shows when it boots has twelve
rows. -/
@[irreducible] def stopped : Terminal :=
  let started := powerOn (ofSettings { rows := 30, cols := 80, boot := false, execDelay := 0 } {} 0
    .denied (fun _ _ => .print (String.ofList (List.replicate 41 'x')) :: .sleep 5 ::
      List.replicate 10 (.print "")) [] [])
  let browsing := ((started.runLine "cd /home;about;about;about").2.press { key := .up }).resize 1 1
  browsing.onSession fun s => { s with running := false, bootMode := true }

/-- The first row of the log scrolls out of sight, and nothing else of the old screen is left. -/
theorem reboot_resets_stopped :
    let s := stopped.session
    let u := stopped.reboot
    s.screen.Shaped ∧ s.outRow = 13 ∧ s.history.position = some 0 ∧ s.editor ≠ {} ∧
      u.machine.files = stopped.machine.files ∧ u.session.acceptsInput = true ∧
      u.session.cwd = "/home" ∧ u.session.previousDir = some "/" ∧ u.session.editor = {} ∧
      u.session.history = ⟨["cd /home;about;about;about"], none⟩ ∧
      u.session.screen.grid = Row.fit ['x'] 40 :: List.replicate 10 (Row.blank 40) ++
        [Row.fit "guest@cedar:/home$ |".toList 40] := by
  intro s u
  have hbefore : s.screen.Shaped ∧ s.outRow = 13 ∧ s.editor ≠ {} ∧ s.busy = false ∧
      s.cwd = "/home" ∧ s.previousDir = some "/" ∧
      s.history = ⟨["cd /home;about;about;about"], some 0⟩ := by decide +kernel
  obtain ⟨hscreen, hrow, heditor, hbusy, hcwd, hprevious, hhistory⟩ := hbefore
  obtain ⟨-, hmachine, hsession, -, -, hgrid, -⟩ := reboot_resets (t := stopped) hscreen
  have hrows : u.session.screen.grid = Row.fit ['x'] 40 :: List.replicate 10 (Row.blank 40) ++
      [Row.fit "guest@cedar:/home$ |".toList 40] := hgrid.trans (by decide +kernel)
  refine ⟨hscreen, hrow, congrArg History.position hhistory, heditor,
    congrArg (·.machine.files) hmachine, ?_, (congrArg Session.cwd hsession).trans hcwd,
    (congrArg Session.previousDir hsession).trans hprevious, congrArg Session.editor hsession, ?_,
    hrows⟩
  · exact Session.acceptsInput_iff.2 ⟨congrArg Session.running hsession,
      congrArg Session.bootMode hsession, (congrArg Session.busy hsession).trans hbusy⟩
  · exact (congrArg Session.history hsession).trans
      (congrArg (fun h : History => { h with position := none }) hhistory)

end Terminal

end SimTerm

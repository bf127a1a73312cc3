import SimTerm.Proofs.History
import SimTerm.Proofs.Machine
import SimTerm.Proofs.Session.Line

/-!
# What a session keeps

Output, editing, the caret and the size of the screen have to do with the screen and the input only.
A session *stays* if it is still in its directory, with the same line in hand and as many captures
open; it is *steady* if moreover it still runs, or still shows a boot log. Booting and rebooting let
a session stay, and at the end of a reboot it runs.

What edits the line keeps even more: there is only one row of the grid that it draws, and it enters
nothing into the history.
-/

namespace SimTerm

namespace Session

/-- The session is where it was, with the same line in hand and as many captures open. -/
structure Stays (s t : Session) : Prop where
  cwd : t.cwd = s.cwd
  previousDir : t.previousDir = s.previousDir
  busy : t.busy = s.busy
  captures : t.captures.length = s.captures.length

/-- The session stays, and keeps its modes. -/
structure Steady (s t : Session) : Prop extends Stays s t where
  running : t.running = s.running
  bootMode : t.bootMode = s.bootMode

variable {s t u : Session}

theorem Stays.refl (s : Session) : s.Stays s :=
  ⟨rfl, rfl, rfl, rfl⟩

theorem Stays.trans (hst : s.Stays t) (htu : t.Stays u) : s.Stays u :=
  ⟨htu.cwd.trans hst.cwd, htu.previousDir.trans hst.previousDir, htu.busy.trans hst.busy,
    htu.captures.trans hst.captures⟩

theorem Steady.refl (s : Session) : s.Steady s :=
  ⟨.refl s, rfl, rfl⟩

theorem Steady.trans (hst : s.Steady t) (htu : t.Steady u) : s.Steady u :=
  ⟨hst.toStays.trans htu.toStays, htu.running.trans hst.running, htu.bootMode.trans hst.bootMode⟩

/-- A steady session accepts input as it did before. -/
theorem Steady.acceptsInput (h : s.Steady t) : t.acceptsInput = s.acceptsInput := by
  rw [Session.acceptsInput, Session.acceptsInput, h.running, h.bootMode, h.busy]

/-- Input is accepted by a session that runs, shows no boot log and is not busy. -/
theorem acceptsInput_iff :
    s.acceptsInput = true ↔ s.running = true ∧ s.bootMode = false ∧ s.busy = false := by
  simp [acceptsInput, and_assoc]

/-! ## Output -/

/-- A line that is printed is added to the captures that are open, and opens or closes none. -/
theorem print_steady (s : Session) (line : String) : s.Steady (s.print line) := by
  rw [print_eq, foldl_putRow_eq]
  exact ⟨⟨rfl, rfl, rfl, List.length_map _⟩, rfl, rfl⟩

/-- Making room for a row leaves the modes alone. -/
theorem ensureRow_steady (s : Session) : s.Steady s.ensureRow := by
  rw [ensureRow_eq]
  exact ⟨⟨rfl, rfl, rfl, rfl⟩, rfl, rfl⟩

theorem renderInput_steady (s : Session) : s.Steady s.renderInput := by
  rw [renderInput_eq]
  exact ⟨⟨rfl, rfl, rfl, rfl⟩, rfl, rfl⟩

theorem drawPrompt_steady (s : Session) : s.Steady s.drawPrompt := by
  have hready : s.Steady (ensureRow { s with editor := s.editor.atPrompt }) := by
    rw [ensureRow_eq]
    exact ⟨⟨rfl, rfl, rfl, rfl⟩, rfl, rfl⟩
  have hprompt (s : Session) : s.Steady s.prompting := ⟨⟨rfl, rfl, rfl, rfl⟩, rfl, rfl⟩
  exact (hready.trans (hprompt _)).trans (renderInput_steady _)

theorem clearScreen_steady (s : Session) : s.Steady s.clearScreen :=
  ⟨⟨rfl, rfl, rfl, rfl⟩, rfl, rfl⟩

theorem resize_steady (s : Session) (rows cols : Nat) : s.Steady (s.resize rows cols) :=
  ⟨⟨rfl, rfl, rfl, rfl⟩, rfl, rfl⟩

theorem blink_steady (s : Session) : s.Steady s.blink := by
  unfold blink
  split
  · have hturned : s.Steady { s with caretVisible := !s.caretVisible } :=
      ⟨⟨rfl, rfl, rfl, rfl⟩, rfl, rfl⟩
    exact hturned.trans (renderInput_steady _)
  · exact .refl s

theorem commit_steady (s : Session) : s.Steady s.commit.2 := by
  have hcommitted : s.Steady { s with
      caretVisible := true, editor := {}, outRow := s.outRow + 1
      screen := (s.screen.setRow s.promptRow
        (s.prompt.toList ++ (String.ofList s.editor.input).toList)).present } :=
    ⟨⟨rfl, rfl, rfl, rfl⟩, rfl, rfl⟩
  have hentered (s : Session) (history : History) : s.Steady { s with history } :=
    ⟨⟨rfl, rfl, rfl, rfl⟩, rfl, rfl⟩
  exact (hcommitted.trans (ensureRow_steady _)).trans (hentered _ _)

/-! ## Editing -/

/-- The session is steady, and only its line is edited: nothing is entered into the history, and no
row of the grid is drawn but the one with the prompt. -/
structure EditsLine (s t : Session) : Prop extends Steady s t where
  entries : t.history.entries = s.history.entries
  outRow : t.outRow = s.outRow
  rows : t.screen.rows = s.screen.rows
  row : ∀ i, i ≠ s.promptRow → t.screen.grid[i]? = s.screen.grid[i]?

theorem EditsLine.refl (s : Session) : s.EditsLine s :=
  ⟨.refl s, rfl, rfl, rfl, fun _ _ => rfl⟩

/-- Both draw the same row. -/
theorem EditsLine.trans (hst : s.EditsLine t) (htu : t.EditsLine u) : s.EditsLine u := by
  have hprompt : t.promptRow = s.promptRow := by
    rw [promptRow, promptRow, hst.outRow, hst.rows]
  exact ⟨hst.toSteady.trans htu.toSteady, htu.entries.trans hst.entries,
    htu.outRow.trans hst.outRow, htu.rows.trans hst.rows,
    fun i hi => (htu.row i (hprompt ▸ hi)).trans (hst.row i hi)⟩

/-- Only what is not drawn was changed: the input, the log, the place in the history. -/
theorem EditsLine.undrawn (s : Session) (editor : Editor) (log : List SessionEvent)
    {history : History} (hentries : history.entries = s.history.entries) :
    s.EditsLine { s with editor, log, history } :=
  ⟨⟨⟨rfl, rfl, rfl, rfl⟩, rfl, rfl⟩, hentries, rfl, rfl, fun _ _ => rfl⟩

theorem renderInput_editsLine (s : Session) : s.EditsLine s.renderInput := by
  refine ⟨renderInput_steady s, by rw [renderInput_eq], outRow_renderInput s, rows_renderInput s,
    fun i hi => ?_⟩
  rw [screen_renderInput]
  exact Screen.getElem?_setRow_ne s.screen hi.symm s.promptCells

/-- An edit draws the prompt row and no other. -/
theorem edit_editsLine (s : Session) (change : Editor → Editor) : s.EditsLine (s.edit change) :=
  (EditsLine.undrawn s (change s.editor) s.log rfl).trans (renderInput_editsLine _)

/-- A step through the history draws the prompt row and no other, and enters nothing into the
history. -/
theorem browse_editsLine (s : Session) {step : Option String × History}
    (hentries : step.2.entries = s.history.entries) : s.EditsLine (s.browse step) := by
  obtain ⟨line?, history⟩ := step
  have hbrowsing : s.EditsLine { s with history } := .undrawn s s.editor s.log hentries
  cases line? with
  | none => exact hbrowsing
  | some line => exact hbrowsing.trans (edit_editsLine _ (·.replace line.toList))

/-- An event is written down before the line is edited. -/
theorem recorded_edit_steady (s : Session) (event : SessionEvent) (change : Editor → Editor) :
    s.Steady ((s.record event).edit change) :=
  ((EditsLine.undrawn s s.editor (event :: s.log) rfl).trans (edit_editsLine _ change)).toSteady

/-- Showing a script line leaves the modes alone. -/
theorem echo_steady (s : Session) (text : String) : s.Steady (s.echo text) :=
  s.recorded_edit_steady (.echoed text) fun _ => Editor.echo text.toList

theorem paste_steady (s : Session) (text : String) : s.Steady (s.paste text) :=
  s.recorded_edit_steady (.pasted text) (·.paste text.toList)

/-! ## Starting -/

/-- A session that starts is where it was. -/
theorem start_stays (s : Session) : s.Stays s.start := by
  have hrunning : s.Stays { s with running := true } := ⟨rfl, rfl, rfl, rfl⟩
  exact hrunning.trans (drawPrompt_steady _).toStays

theorem running_start (s : Session) : s.start.running = true :=
  (drawPrompt_steady { s with running := true }).running

theorem bootMode_start (s : Session) : s.start.bootMode = s.bootMode :=
  (drawPrompt_steady { s with running := true }).bootMode

end Session

/-! ## Booting -/

namespace Machine

/-- Whatever a boot sequence prints, the session stays. -/
theorem runBoot_stays (m : Machine) (reboot : Bool) :
    m.session.Stays (m.runBoot reboot).session :=
  runBoot_induction (P := m.session.Stays) ⟨rfl, rfl, rfl, rfl⟩
    (fun s line hs => hs.trans (s.print_steady line).toStays)
    (fun s hs => hs.trans s.blink_steady.toStays)
    (fun _ hs => ⟨hs.cwd, hs.previousDir, hs.busy, hs.captures⟩) reboot

/-- When a boot log is over, it is shown no more. -/
theorem bootMode_runBoot (m : Machine) (reboot : Bool) :
    (m.runBoot reboot).session.bootMode = false :=
  rfl

/-- A reboot leaves the session where it was. -/
theorem reboot_stays (m : Machine) : m.session.Stays m.reboot.session := by
  have hstopped : m.session.Stays m.session.stop := ⟨rfl, rfl, rfl, rfl⟩
  have hbooted := hstopped.trans (runBoot_stays { m with session := m.session.stop } true)
  exact hbooted.trans (Session.start_stays _)

theorem running_reboot (m : Machine) : m.reboot.session.running = true :=
  Session.running_start _

theorem bootMode_reboot (m : Machine) : m.reboot.session.bootMode = false :=
  (Session.bootMode_start _).trans (bootMode_runBoot _ true)

/-- A machine with no line in hand accepts input after a reboot, whatever modes it was in. -/
theorem acceptsInput_reboot {m : Machine} (h : m.session.busy = false) :
    m.reboot.session.acceptsInput = true :=
  Session.acceptsInput_iff.2
    ⟨m.running_reboot, m.bootMode_reboot, m.reboot_stays.busy.trans h⟩

end Machine

end SimTerm

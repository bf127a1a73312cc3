import SimTerm.Proofs.Machine
import SimTerm.Proofs.Session.Bounds

/-!
# What is seen of the input

A session is in step with its editor if what was seen last is the grid, and the prompt row of the
grid shows the prompt, as much of the input as there is room for, and the caret: `InStep`. Drawing
the prompt row brings a session in step, however the screen looked before and wherever the next row
of output stands, as long as the grid has its shape. Everything that changes the input or the prompt
draws the row anew; `Live` is what it needs of the session to do so.
-/

namespace SimTerm.Session

/-- The row that shows the input: the prompt, the start of the input and spaces, cut to the width,
and the caret or a space in the place of the cursor. -/
def inputRow (s : Session) : Row :=
  let prompt := s.prompt.toList
  let shown := s.editor.input.take (s.screen.cols - prompt.length)
  let caret := min (prompt.length + min s.editor.cursor shown.length) (s.screen.cols - 1)
  ((prompt ++ shown ++ List.replicate s.screen.cols ' ').take s.screen.cols).set caret
    (if s.caretVisible then '|' else ' ')

/-- The grid is what was seen last, and shows the input where the prompt stands. -/
structure InStep (s : Session) : Prop where
  seen : s.screen.shown = s.screen.grid
  shows : s.screen.grid[min s.outRow (s.screen.rows - 1)]? = some s.inputRow

/-- A session that runs, on a grid of the right size. -/
structure Live (s : Session) : Prop where
  screen : s.screen.Shaped
  running : s.running = true

/-! ## The prompt row -/

/-- The cells of the prompt row can be told from the prompt, the input and the caret. -/
theorem promptCells_eq_inputRow (s : Session) : s.promptCells = s.inputRow := by
  have hlength : s.prompt.length = s.prompt.toList.length := String.length_toList.symm
  rw [promptCells, inputRow, ← Row.fit_eq_take, caretColumn, shownInput, hlength]

/-- Drawing the prompt row brings the session in step. -/
theorem renderInput_inStep {s : Session} (h : s.screen.Shaped) : s.renderInput.InStep := by
  have hpos := h.rows_pos
  have hrow : s.promptRow < s.screen.rows := by
    rw [promptRow]
    omega
  have hset : (s.screen.setRow s.promptRow s.promptCells).grid =
      s.screen.grid.set s.promptRow s.promptCells := by
    rw [Screen.grid_setRow hrow, Row.fit_of_length (length_promptCells s)]
  have hscreen := screen_renderInput s
  have hinput : s.renderInput.inputRow = s.inputRow := by
    rw [inputRow, cols_renderInput, renderInput_eq]
    rfl
  refine ⟨by rw [hscreen]; rfl, ?_⟩
  rw [outRow_renderInput, rows_renderInput, hinput, hscreen, ← promptCells_eq_inputRow]
  show (s.screen.setRow s.promptRow s.promptCells).grid[s.promptRow]? = some s.promptCells
  rw [hset, List.getElem?_set_self (by rw [h.length]; exact hrow)]

/-- Only the screen, the editor, the prompt and the caret matter for being in step. -/
theorem InStep.of_eq {s t : Session} (h : s.InStep) (hscreen : t.screen = s.screen)
    (houtRow : t.outRow = s.outRow) (hinput : t.inputRow = s.inputRow) : t.InStep :=
  ⟨hscreen ▸ h.seen, by rw [hscreen, houtRow, hinput]; exact h.shows⟩

/-! ## Grids keep their shape -/

theorem ensureRow_shaped {s : Session} (h : s.screen.Shaped) : s.ensureRow.screen.Shaped :=
  (Drawn.ensureRow h.drawn).prop.shaped

theorem print_shaped {s : Session} (h : s.screen.Shaped) (line : String) :
    (s.print line).screen.Shaped :=
  (Drawn.print h.drawn line).prop.shaped

theorem renderInput_shaped {s : Session} (h : s.screen.Shaped) : s.renderInput.screen.Shaped :=
  (Drawn.renderInput h.drawn).prop.shaped

theorem drawPrompt_shaped {s : Session} (h : s.screen.Shaped) : s.drawPrompt.screen.Shaped :=
  (Drawn.drawPrompt h.drawn).prop.shaped

theorem blink_shaped {s : Session} (h : s.screen.Shaped) : s.blink.screen.Shaped :=
  (Drawn.perform h.drawn .blink).prop.shaped

theorem commit_shaped {s : Session} (h : s.screen.Shaped) : s.commit.2.screen.Shaped :=
  (Drawn.commit h.drawn).prop.shaped

/-! ## Sessions that run -/

theorem Live.print {s : Session} (h : s.Live) (line : String) : (s.print line).Live := by
  refine ⟨print_shaped h.screen line, ?_⟩
  rw [print_eq, foldl_putRow_eq]
  exact h.running

theorem Live.renderInput {s : Session} (h : s.Live) : s.renderInput.Live := by
  refine ⟨renderInput_shaped h.screen, ?_⟩
  rw [renderInput_eq]
  exact h.running

theorem Live.edit {s : Session} (h : s.Live) (change : Editor → Editor) : (s.edit change).Live := by
  have hedited : Live { s with editor := change s.editor } := ⟨h.screen, h.running⟩
  exact hedited.renderInput

/-- An edit draws the prompt row anew. -/
theorem Live.edit_inStep {s : Session} (h : s.Live) (change : Editor → Editor) :
    (s.edit change).InStep := by
  have hedited : Screen.Shaped ({ s with editor := change s.editor } : Session).screen := h.screen
  exact renderInput_inStep hedited

theorem Live.drawPrompt {s : Session} (h : s.Live) : s.drawPrompt.Live := by
  refine ⟨drawPrompt_shaped h.screen, ?_⟩
  rw [drawPrompt_eq, renderInput_eq, ensureRow_eq]
  exact h.running

/-- So does a new prompt. -/
theorem drawPrompt_inStep {s : Session} (h : s.screen.Shaped) : s.drawPrompt.InStep := by
  have hready : (ensureRow { s with editor := s.editor.atPrompt }).screen.Shaped :=
    ensureRow_shaped h
  have hprompting : (ensureRow { s with editor := s.editor.atPrompt }).prompting.screen.Shaped :=
    (hready.setRow _ _).present
  rw [drawPrompt_eq]
  exact renderInput_inStep hprompting

theorem Live.clearScreen {s : Session} (h : s.Live) : s.clearScreen.Live :=
  ⟨h.screen.clear.present, h.running⟩

theorem Live.commit {s : Session} (h : s.Live) : s.commit.2.Live := by
  refine ⟨commit_shaped h.screen, ?_⟩
  have hcommit : s.commit.2.running = s.running := by
    unfold Session.commit
    dsimp only
    rw [ensureRow_eq]
    rfl
  exact hcommit.trans h.running

end SimTerm.Session

namespace SimTerm.Machine

open Session

/-- A boot log keeps the shape of the grid. -/
theorem runBoot_shaped {m : Machine} (h : m.session.screen.Shaped) (reboot : Bool) :
    (m.runBoot reboot).session.screen.Shaped :=
  runBoot_induction (P := fun s => s.screen.Shaped) h.clear.present
    (fun _ line hs => print_shaped hs line) (fun _ hs => blink_shaped hs) (fun _ hs => hs) reboot

/-- Starting makes a session live and in step. -/
theorem start_live {s : Session} (h : s.screen.Shaped) : s.start.Live ∧ s.start.InStep := by
  have hrunning : Live { s with running := true } := ⟨h, rfl⟩
  exact ⟨hrunning.drawPrompt, drawPrompt_inStep hrunning.screen⟩

/-- A machine that boots again ends with a live session in step, whatever it shows meanwhile. -/
theorem reboot_live {m : Machine} (h : m.session.screen.Shaped) :
    m.reboot.session.Live ∧ m.reboot.session.InStep := by
  have hstopped : Screen.Shaped ({ m with session := m.session.stop } : Machine).session.screen := h
  exact start_live (runBoot_shaped hstopped true)

end SimTerm.Machine

import SimTerm.Proofs.Screen.Bounds
import SimTerm.Proofs.Session.Calls

/-!
# A session stays within its grid

What a session does to its screen once more, by the checked operations: `renderInput?` and its like
come to nothing where the caret would stand outside the prompt row, where there is no last row or
column, where a text would have to be cut into rows of no width, and where an operation on the
screen does. From a new session on, whatever is asked of it, the checked calls have the results of
the plain ones, and the grid has its size: `grid_keeps_size`.
-/

namespace SimTerm.Session

/-! ## The checked operations -/

/-- Let a grid be seen that has the size of the screen. -/
def render? (s : Session) : Option Session := do
  let screen ← s.screen.present?
  return { s with screen }

/-- Put a text into a row and let the grid be seen. -/
def showRow? (s : Session) (row : Nat) (text : List Char) : Option Session := do
  let screen ← s.screen.setRow? row text
  render? { s with screen }

/-- Scroll by one row if the next output would stand below the grid, and go to the last one. -/
def ensureRow? (s : Session) : Option Session :=
  if s.outRow < s.screen.rows then some s
  else do
    let screen ← s.screen.scrollUp? 1
    let last ← screen.rows.psub 1
    return { s with screen, outRow := last }

/-- Put a text on the next row of output. -/
def putRow? (s : Session) (text : List Char) : Option Session := do
  let s ← s.ensureRow?
  let screen ← s.screen.setRow? s.outRow text
  return { s with screen, outRow := s.outRow + 1 }

/-- Cut a line into rows that have a width, and print it. -/
def print? (s : Session) (text : String) : Option Session :=
  if s.screen.cols = 0 then none
  else do
    let s ← (wrapped s.screen.cols text.toList).foldlM putRow? (s.collected text)
    s.render?

/-- Draw the prompt row, with the caret in a cell that it has. -/
def renderInput? (s : Session) : Option Session := do
  let lastRow ← s.screen.rows.psub 1
  let lastCol ← s.screen.cols.psub 1
  let cells := (s.prompt.toList ++ s.shownInput ++ List.replicate s.screen.cols ' ').take
    s.screen.cols
  let caret := min (s.prompt.length + min s.editor.cursor s.shownInput.length) lastCol
  if caret < cells.length then do
    let cells := cells.set caret (if s.caretVisible then '|' else ' ')
    let drawn ← s.showRow? (min s.outRow lastRow) cells
    return if s.outRow < s.screen.rows then drawn else drawn.record (.overdrawn cells)
  else none

/-- Draw a new prompt on the next row of output. -/
def drawPrompt? (s : Session) : Option Session := do
  let s ← ensureRow? { s with editor := s.editor.atPrompt }
  let s ← s.showRow? s.outRow s.prompt.toList
  s.renderInput?

/-- Make the screen blank and begin at the top. -/
def clearScreen? (s : Session) : Option Session := do
  let screen ← s.screen.clear?
  let s ← render? { s with screen, outRow := 0 }
  return s.record .wiped

/-- Let the editor do something and draw the prompt row. -/
def edit? (s : Session) (change : Editor → Editor) : Option Session :=
  renderInput? { s with editor := change s.editor }

/-- Show the line that a step through the history led to, if it led to one. -/
def browse? (s : Session) : Option String × History → Option Session
  | (some line, history) => edit? { s with history } (·.replace line.toList)
  | (none, history) => some { s with history }

/-- Leave the input on the screen and in the history. -/
def commit? (s : Session) : Option Session := do
  let line := String.ofList s.editor.input
  let s := { s with caretVisible := true, editor := {} }
  let lastRow ← s.screen.rows.psub 1
  let s ← s.showRow? (min s.outRow lastRow) (s.prompt.toList ++ line.toList)
  let s ← ensureRow? { s with outRow := s.outRow + 1 }
  return { s with history := s.history.push line }

/-- Stop and make the editor and the screen empty. -/
def resetHard? (s : Session) : Option Session := do
  let screen ← s.screen.clear?
  let s ← render?
    { s with running := false, editor := {}, history := s.history.leave, outRow := 0, screen }
  return s.record .wiped

/-- Change the size of the screen. -/
def resize? (s : Session) (rows cols : Nat) : Option Session := do
  let screen ← s.screen.resize? rows cols
  render? { s with screen }

/-- The session after a checked call; what does not touch the screen needs no check. -/
def perform? (s : Session) : Call → Option Session
  | .insert c => if Editor.isBreak c then some s else s.edit? (·.put [c])
  | .paste text => (s.record (.pasted text)).edit? (·.paste text.toList)
  | .echo text => (s.record (.echoed text)).edit? fun _ => Editor.echo text.toList
  | .backspace => if s.editor.cursor = 0 then some s else s.edit? Editor.backspace
  | .delete =>
    if s.editor.cursor < s.editor.input.length then s.edit? Editor.delete else some s
  | .moveCursor delta => s.edit? (·.move delta)
  | .home => s.edit? Editor.home
  | .toEnd => s.edit? Editor.toEnd
  | .historyUp => s.browse? s.history.up
  | .historyDown => s.browse? s.history.down
  | .drawPrompt => s.drawPrompt?
  | .commit => s.commit?
  | .resetHard => s.resetHard?
  | .start => drawPrompt? { s with running := true }
  | .print line => s.print? line
  | .renderInput => s.renderInput?
  | .clearScreen => s.clearScreen?
  | .blink =>
    if s.running && !s.bootMode then renderInput? { s with caretVisible := !s.caretVisible }
    else some s
  | .resize rows cols => s.resize? rows cols
  | .stop => some s.stop
  | .setBootMode on => some { s with bootMode := on }
  | .setBusy busy => some { s with busy }
  | .changeDir path => some (s.changeDir path)
  | .back => some s.back
  | .beginCapture => some s.beginCapture
  | .endCapture => some s.endCapture.2

/-! ## What they have to do with the plain ones -/

/-- What was seen of the session after these frames were full frames, and the next one will be. -/
def Drawn (frames : List Grid) (s : Session) : Prop :=
  s.screen.Drawn frames

variable {frames : List Grid} {s : Session}

theorem Drawn.render (h : s.Drawn frames) : Passes (Drawn frames) s.render? s.render :=
  h.present.bind fun hseen => ⟨rfl, hseen⟩

theorem Drawn.showRow (h : s.Drawn frames) (row : Nat) (text : List Char) :
    Passes (Drawn frames) (s.showRow? row text)
      (Session.render { s with screen := s.screen.setRow row text }) := by
  refine (h.setRow row text).bind fun hset => ?_
  have hset : Drawn frames { s with screen := s.screen.setRow row text } := hset
  exact hset.render

theorem Drawn.ensureRow (h : s.Drawn frames) :
    Passes (Drawn frames) s.ensureRow? s.ensureRow := by
  unfold ensureRow? Session.ensureRow
  split
  · exact ⟨rfl, h⟩
  · refine (h.scrollUp 1).bind fun hscrolled => ⟨?_, hscrolled⟩
    rw [Nat.psub_eq_sub hscrolled.shaped.rows_pos]
    rfl

theorem Drawn.putRow (h : s.Drawn frames) (text : List Char) :
    Passes (Drawn frames) (s.putRow? text) (s.putRow text) :=
  h.ensureRow.bind fun hready => (hready.setRow _ text).bind fun hput => ⟨rfl, hput⟩

/-- Printing never fails, however long the line is. -/
theorem Drawn.print (h : s.Drawn frames) (text : String) :
    Passes (Drawn frames) (s.print? text) (s.print text) := by
  have hcollected : (s.collected text).Drawn frames := h
  have hcols : s.screen.cols ≠ 0 := Nat.ne_of_gt h.shaped.cols_pos
  rw [print?, if_neg hcols, print_eq]
  exact (Passes.foldlM (fun _ row hs => hs.putRow row) _ hcollected).bind fun hput => hput.render

/-- The caret stands in the prompt row, which is as wide as the grid. -/
theorem Drawn.renderInput (h : s.Drawn frames) :
    Passes (Drawn frames) s.renderInput? s.renderInput := by
  have hcols := h.shaped.cols_pos
  have hcaret : min (s.prompt.length + min s.editor.cursor s.shownInput.length)
      (s.screen.cols - 1) < s.screen.cols := by omega
  simp only [renderInput?, Nat.psub_eq_sub h.shaped.rows_pos, Nat.psub_eq_sub hcols,
    Option.bind_eq_bind, Option.bind_some, ← Row.fit_eq_take, Row.length_fit, if_pos hcaret]
  refine (h.showRow s.promptRow s.promptCells).bind fun hseen => ⟨rfl, ?_⟩
  unfold Session.renderInput
  split
  · exact hseen
  · exact hseen

theorem Drawn.drawPrompt (h : s.Drawn frames) :
    Passes (Drawn frames) s.drawPrompt? s.drawPrompt := by
  have hprompt : Drawn frames { s with editor := s.editor.atPrompt } := h
  exact hprompt.ensureRow.bind fun hready =>
    (hready.showRow _ _).bind fun hseen => hseen.renderInput

theorem Drawn.clearScreen (h : s.Drawn frames) :
    Passes (Drawn frames) s.clearScreen? s.clearScreen := by
  refine h.clear.bind fun hclear => ?_
  have hclear : Drawn frames { s with screen := s.screen.clear, outRow := 0 } := hclear
  exact hclear.render.bind fun hseen => ⟨rfl, hseen⟩

theorem Drawn.edit (h : s.Drawn frames) (change : Editor → Editor) :
    Passes (Drawn frames) (s.edit? change) (s.edit change) := by
  have hedited : Drawn frames { s with editor := change s.editor } := h
  exact hedited.renderInput

theorem Drawn.browse (h : s.Drawn frames) (step : Option String × History) :
    Passes (Drawn frames) (s.browse? step) (s.browse step) := by
  obtain ⟨line?, history⟩ := step
  have hbrowsed : Drawn frames { s with history } := h
  cases line? with
  | none => exact ⟨rfl, hbrowsed⟩
  | some line => exact hbrowsed.edit (·.replace line.toList)

theorem Drawn.commit (h : s.Drawn frames) :
    Passes (Drawn frames) s.commit? s.commit.2 := by
  have hleft : Drawn frames { s with caretVisible := true, editor := {} } := h
  -- a grid has a row, so the last one has an index
  simp only [commit?, Nat.psub_eq_sub h.shaped.rows_pos, Option.bind_eq_bind, Option.bind_some]
  refine (hleft.showRow _ _).bind fun hseen => ?_
  have hbelow : ∀ t : Session, t.Drawn frames → Drawn frames { t with outRow := t.outRow + 1 } :=
    fun _ ht => ht
  exact (hbelow _ hseen).ensureRow.bind fun hready => ⟨rfl, hready⟩

theorem Drawn.resetHard (h : s.Drawn frames) :
    Passes (Drawn frames) s.resetHard? s.resetHard := by
  refine h.clear.bind fun hclear => ?_
  have hclear : Drawn frames { s with
      running := false, editor := {}, history := s.history.leave, outRow := 0
      screen := s.screen.clear } := hclear
  exact hclear.render.bind fun hseen => ⟨rfl, hseen⟩

theorem Drawn.resize (h : s.Drawn frames) (rows cols : Nat) :
    Passes (Drawn frames) (s.resize? rows cols) (s.resize rows cols) := by
  refine (Screen.Drawn.resize h rows cols).bind fun hresized => ?_
  have hresized : Drawn frames { s with screen := s.screen.resize rows cols } := hresized
  exact hresized.render

/-- A call on a session whose grid has its size touches nothing outside the grid. -/
theorem Drawn.perform (h : s.Drawn frames) (call : Call) :
    Passes (Drawn frames) (s.perform? call) (s.perform call) := by
  cases call with
  | insert c =>
    rw [perform?, Session.perform, Session.insert]
    split
    · exact ⟨rfl, h⟩
    · exact h.edit (·.put [c])
  | backspace =>
    rw [perform?, Session.perform, Session.backspace]
    split
    · exact ⟨rfl, h⟩
    · exact h.edit Editor.backspace
  | delete =>
    rw [perform?, Session.perform, Session.delete]
    split
    · exact h.edit Editor.delete
    · exact ⟨rfl, h⟩
  | paste text =>
    have hrecorded : (s.record (.pasted text)).Drawn frames := h
    exact hrecorded.edit (·.paste text.toList)
  | echo text =>
    have hrecorded : (s.record (.echoed text)).Drawn frames := h
    exact hrecorded.edit fun _ => Editor.echo text.toList
  | moveCursor delta => exact h.edit (·.move delta)
  | home => exact h.edit Editor.home
  | toEnd => exact h.edit Editor.toEnd
  | historyUp => exact h.browse s.history.up
  | historyDown => exact h.browse s.history.down
  | drawPrompt => exact h.drawPrompt
  | start =>
    have hrunning : Drawn frames { s with running := true } := h
    exact hrunning.drawPrompt
  | commit => exact h.commit
  | resetHard => exact h.resetHard
  | print line => exact h.print line
  | renderInput => exact h.renderInput
  | clearScreen => exact h.clearScreen
  | blink =>
    have hturned : Drawn frames { s with caretVisible := !s.caretVisible } := h
    rw [perform?, Session.perform, Session.blink]
    split
    · exact hturned.renderInput
    · exact ⟨rfl, h⟩
  | resize rows cols => exact h.resize rows cols
  | endCapture =>
    refine ⟨rfl, ?_⟩
    rw [Session.perform, Session.endCapture]
    split
    · exact h
    · exact h
  | stop | setBootMode | setBusy | changeDir | back | beginCapture => exact ⟨rfl, h⟩

theorem ofSettings_drawn (settings : Settings) (frames : List Grid) :
    (ofSettings settings frames).Drawn frames :=
  Screen.ofSize_drawn settings.rows settings.cols frames

/-! ## One thing after the other -/

/-- What may be done to a session: a call, or an operation on its screen. -/
inductive Act where
  | call (call : Call)
  | draw (op : Screen.Step)
deriving DecidableEq, Repr

/-- The session after something was done to it. -/
def act (s : Session) : Act → Session
  | .call call => s.perform call
  | .draw op => { s with screen := s.screen.step op }

/-- The session after something was done to it, checked. -/
def act? (s : Session) : Act → Option Session
  | .call call => s.perform? call
  | .draw op => do
    let screen ← s.screen.step? op
    return { s with screen }

/-- No operation on a session fails. -/
theorem Drawn.act (h : s.Drawn frames) (a : Act) : Passes (Drawn frames) (s.act? a) (s.act a) := by
  cases a with
  | call call => exact h.perform call
  | draw op => exact (h.step op).bind fun hdrawn => ⟨rfl, hdrawn⟩

/-- A screen of any size is made, and anything is done to it; or a session with any settings is
made, and anything is done to it and to its screen. Then no check fails: no row is touched that the
grid does not have and no cell that the row does not have, no difference falls below zero, and each
grid has the size of the screen when it is presented. The grid has at least twelve rows and forty
columns, exactly as many as the screen says, and every frame that was presented was as full. -/
theorem grid_keeps_size (frames : List Grid) :
    (∀ (rows cols : Nat) (ops : List Screen.Step),
      let made := Screen.ofSize rows cols frames
      let s := ops.foldl Screen.step made
      ops.foldlM Screen.step? made = some s ∧
        12 ≤ s.rows ∧ 40 ≤ s.cols ∧ s.grid.length = s.rows ∧
        (∀ row ∈ s.grid, row.length = s.cols) ∧
        ∃ seen, s.frames = seen ++ frames ∧ ∀ frame ∈ seen, Screen.IsFullFrame frame) ∧
    ∀ (settings : Settings) (acts : List Act),
      let made := ofSettings settings frames
      let s := acts.foldl act made
      acts.foldlM act? made = some s ∧
        12 ≤ s.screen.rows ∧ 40 ≤ s.screen.cols ∧ s.screen.grid.length = s.screen.rows ∧
        (∀ row ∈ s.screen.grid, row.length = s.screen.cols) ∧
        ∃ seen, s.screen.frames = seen ++ frames ∧ ∀ frame ∈ seen, Screen.IsFullFrame frame := by
  constructor
  · intro rows cols ops made s
    obtain ⟨hchecked, hdrawn⟩ : Passes (Screen.Drawn frames) (ops.foldlM Screen.step? made) s :=
      .foldlM (fun _ op hs => hs.step op) ops (Screen.ofSize_drawn rows cols frames)
    exact ⟨hchecked, hdrawn.shaped.minRows_le, hdrawn.shaped.minCols_le, hdrawn.shaped.length,
      hdrawn.shaped.width, hdrawn.seen⟩
  · intro settings acts made s
    obtain ⟨hchecked, hdrawn⟩ : Passes (Drawn frames) (acts.foldlM act? made) s :=
      .foldlM (fun _ a hs => hs.act a) acts (ofSettings_drawn settings frames)
    exact ⟨hchecked, hdrawn.shaped.minRows_le, hdrawn.shaped.minCols_le, hdrawn.shaped.length,
      hdrawn.shaped.width, hdrawn.seen⟩

end SimTerm.Session

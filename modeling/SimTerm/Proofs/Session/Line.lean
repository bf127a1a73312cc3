import SimTerm.Proofs.Session.Output

/-!
# What a line does to a session

`Follows` relates a session to a later one by the events between them: what the log has in addition,
and, unless the screen was wiped, where the next row of output stands, what an endless screen shows,
and whether a prompt row was drawn over output. It holds of everything that a line does to a
session, and of one thing after the other.
-/

namespace SimTerm.Session

/-- The events are what the log has in addition, and the session is still sound. -/
structure Extends (events : List SessionEvent) (s t : Session) : Prop where
  log : t.log = events.reverse ++ s.log
  rows : t.screen.rows = s.screen.rows
  cols : t.screen.cols = s.screen.cols
  sound : t.Sound

/-- What events leave on the screen. -/
structure Scrolls (events : List SessionEvent) (s t : Session) : Prop where
  outRow : t.outRow = min s.screen.rows (s.outRow + (printedRows s.screen.cols events).length)
  shows : ∀ seen, s.Shows seen → t.Shows (scroll s.screen.cols seen events)
  overdrawn : (∃ row, .overdrawn row ∈ events) ↔ Late s.screen.rows s.screen.cols s.outRow events

/-- The session runs and shows no boot log. -/
structure Running (s : Session) : Prop where
  sound : s.Sound
  running : s.running = true
  bootMode : s.bootMode = false

/-- The events lead from one running session to the other. -/
structure Follows (events : List SessionEvent) (s t : Session) : Prop where
  toExtends : Extends events s t
  running : t.running = true
  bootMode : t.bootMode = false
  scrolls : .wiped ∉ events → Scrolls events s t

theorem Follows.toRunning {events : List SessionEvent} {s t : Session} (h : Follows events s t) :
    t.Running :=
  ⟨h.toExtends.sound, h.running, h.bootMode⟩

/-- Where nothing happened, no event was written down. -/
theorem Extends.refl {s : Session} (h : s.Sound) : Extends [] s s :=
  ⟨rfl, rfl, rfl, h⟩

/-- The events of two parts are written down one after the other. -/
theorem Extends.trans {a b : List SessionEvent} {s t u : Session} (hst : Extends a s t)
    (htu : Extends b t u) : Extends (a ++ b) s u := by
  refine ⟨?_, htu.rows.trans hst.rows, htu.cols.trans hst.cols, htu.sound⟩
  rw [htu.log, hst.log, List.reverse_append, List.append_assoc]

/-- The events of two parts scroll one after the other, the second from the place where the first
ended. -/
theorem Scrolls.trans {a b : List SessionEvent} {s t u : Session} (hst : Extends a s t)
    (hs : Scrolls a s t) (ht : Scrolls b t u) : Scrolls (a ++ b) s u := by
  have hrows := hst.rows
  have hcols := hst.cols
  refine ⟨?_, fun seen hseen => ?_, ?_⟩
  · rw [ht.outRow, hs.outRow, hrows, hcols, printedRows_append, List.length_append]
    omega
  · rw [scroll_append, ← hcols]
    exact ht.shows _ (hcols ▸ hs.shows seen hseen)
  · rw [late_append, ← hs.overdrawn, ← late_min, ← hs.outRow, ← hrows, ← hcols, ← ht.overdrawn]
    simp only [List.mem_append, exists_or]

/-- The events of two parts lead on from each other. -/
theorem Follows.trans {a b : List SessionEvent} {s t u : Session} (hst : Follows a s t)
    (htu : Follows b t u) : Follows (a ++ b) s u := by
  refine ⟨hst.toExtends.trans htu.toExtends, htu.running, htu.bootMode, fun hwiped => ?_⟩
  rw [List.mem_append, not_or] at hwiped
  exact (hst.scrolls hwiped.1).trans hst.toExtends (htu.scrolls hwiped.2)

/-- What leaves the screen, the log and the modes alone is no event. -/
theorem Follows.quiet {s t : Session} (h : s.Running) (hscreen : t.screen = s.screen)
    (houtRow : t.outRow = s.outRow) (hlog : t.log = s.log) (hrunning : t.running = s.running)
    (hbootMode : t.bootMode = s.bootMode) : Follows [] s t := by
  have hsound : t.Sound := ⟨hscreen ▸ h.sound.screen, hscreen ▸ houtRow ▸ h.sound.outRow_le⟩
  refine ⟨⟨hlog, hscreen ▸ rfl, hscreen ▸ rfl, hsound⟩, hrunning.trans h.running,
    hbootMode.trans h.bootMode, fun _ => ⟨?_, fun seen hseen => ?_, ?_⟩⟩
  · rw [houtRow]
    exact (Nat.min_eq_right h.sound.outRow_le).symm
  · have habove : t.rowsAbove = s.rowsAbove := by
      rw [rowsAbove, rowsAbove, hscreen, houtRow]
    exact ⟨houtRow ▸ hseen.enough, by rw [habove, houtRow]; exact hseen.above⟩
  · refine iff_of_false ?_ id
    rintro ⟨_, hmem⟩
    exact List.not_mem_nil hmem

/-! ## Printing -/

/-- A row of output changes the screen and the place of the next row, and nothing else. -/
theorem putRow_eq (s : Session) (text : List Char) :
    s.putRow text =
      { s with screen := (s.putRow text).screen, outRow := (s.putRow text).outRow } := by
  unfold putRow ensureRow
  split <;> rfl

/-- Rows of output change the screen and the place of the next one. -/
theorem foldl_putRow_eq (texts : List (List Char)) (s : Session) :
    texts.foldl putRow s =
      { s with
        screen := (texts.foldl putRow s).screen, outRow := (texts.foldl putRow s).outRow } := by
  induction texts generalizing s with
  | nil => rfl
  | cons text texts ih =>
    rw [List.foldl_cons, ih (s.putRow text), putRow_eq s text]

/-- A line that is in the log and in the captures, but not yet on the screen. -/
def collected (s : Session) (line : String) : Session :=
  record { s with captures := s.captures.map (line :: ·) } (.printed line)

/-- A line is printed by putting its pieces below each other, after it was written down. -/
theorem print_eq (s : Session) (line : String) :
    s.print line =
      ((wrapped s.screen.cols line.toList).foldl putRow (s.collected line)).render :=
  rfl

/-- Printing leaves the session where it is, with its user. -/
theorem print_place (s : Session) (line : String) :
    (s.print line).user = s.user ∧ (s.print line).cwd = s.cwd := by
  rw [print_eq, foldl_putRow_eq]
  exact ⟨rfl, rfl⟩

/-- The pieces of a printed line are put below each other. -/
theorem putRows_collected {s : Session} (h : s.Sound) (line : String) :
    PutRows (wrapped s.screen.cols line.toList) (s.collected line)
      ((wrapped s.screen.cols line.toList).foldl putRow (s.collected line)) := by
  have hsound : (s.collected line).Sound := ⟨h.screen, h.outRow_le⟩
  exact putRows hsound _

/-- Printing writes down that the line was printed. -/
theorem print_extends {s : Session} (h : s.Sound) (line : String) :
    Extends [.printed line] s (s.print line) := by
  have hput := putRows_collected h line
  refine ⟨?_, hput.rows, hput.cols, ⟨hput.sound.screen.present, hput.sound.outRow_le⟩⟩
  rw [print_eq, foldl_putRow_eq]
  rfl

theorem print_scrolls {s : Session} (h : s.Sound) (line : String) :
    Scrolls [.printed line] s (s.print line) := by
  have hput := putRows_collected h line
  have hrows : printedRows s.screen.cols [.printed line] =
      (wrapped s.screen.cols line.toList).map (Row.fit · s.screen.cols) := by
    rw [printedRows, List.flatMap_singleton, SessionEvent.rows]
  refine ⟨?_, fun seen hseen => ?_, ?_⟩
  · rw [hrows, List.length_map]
    exact hput.outRow
  · have hshown := hput.shows seen ⟨hseen.enough, hseen.above⟩
    exact ⟨hshown.enough, hshown.above⟩
  · simp [Late, SessionEvent.showsInput]

/-- Printing leads to a running session. -/
theorem print_follows {s : Session} (h : s.Running) (line : String) :
    Follows [.printed line] s (s.print line) := by
  refine ⟨print_extends h.sound line, ?_, ?_, fun _ => print_scrolls h.sound line⟩
  · rw [print_eq, foldl_putRow_eq]
    exact h.running
  · rw [print_eq, foldl_putRow_eq]
    exact h.bootMode

/-! ## Showing the input -/

theorem length_promptCells (s : Session) : s.promptCells.length = s.screen.cols := by
  rw [promptCells, List.length_set, Row.length_fit]

/-- Drawing the prompt row keeps a session sound. -/
theorem Sound.renderInput {s : Session} (h : s.Sound) : s.renderInput.Sound := by
  have hrows : (s.screen.setRow s.promptRow s.promptCells).rows = s.screen.rows :=
    Screen.rows_setRow _ _ _
  unfold Session.renderInput
  split
  · exact ⟨(h.screen.setRow _ _).present, hrows ▸ h.outRow_le⟩
  · exact ⟨(h.screen.setRow _ _).present, hrows ▸ h.outRow_le⟩

/-- Above the end of the screen the prompt row is not a row of output. -/
theorem Shows.renderInput {s : Session} {seen : List Row} (h : s.Shows seen)
    (hrow : s.outRow < s.screen.rows) : s.renderInput.Shows seen := by
  have hprompt : s.promptRow = s.outRow := Nat.min_eq_left (by omega)
  have hset := h.setRow s.promptCells
  rw [Session.renderInput, if_pos hrow, hprompt]
  exact ⟨hset.enough, hset.above⟩

/-- At the end of the screen the prompt row takes the place of the last row of output. -/
theorem Shows.renderInput_over {s : Session} {seen : List Row} (hs : s.Sound) (h : s.Shows seen)
    (hrow : ¬ s.outRow < s.screen.rows) :
    s.renderInput.Shows (seen.dropLast ++ [s.promptCells]) := by
  obtain ⟨hfull, hgrid⟩ := h.grid_of_full hs hrow
  have hpos := hs.screen.rows_pos
  have henough := h.enough
  obtain ⟨last, hlast⟩ : ∃ last, s.screen.rows = last + 1 := ⟨s.screen.rows - 1, by omega⟩
  have hprompt : s.promptRow = last := by
    rw [promptRow]
    omega
  -- the last row of the grid is the last one shown, and the prompt row stands in its place
  have hset : (s.screen.setRow s.promptRow s.promptCells).grid =
      lastRows s.outRow (seen.dropLast ++ [s.promptCells]) := by
    rw [hprompt, Screen.grid_setRow (by omega), Row.fit_of_length (length_promptCells s), hgrid,
      hfull, hlast]
    exact set_lastRows (by omega) _
  have hlength : (s.screen.setRow s.promptRow s.promptCells).grid.length ≤ s.outRow :=
    Nat.le_of_eq ((hs.screen.setRow _ _).length.trans
      ((Screen.rows_setRow _ _ _).trans hfull.symm))
  rw [Session.renderInput, if_neg hrow]
  refine ⟨?_, ?_⟩
  · rw [List.length_append, List.length_dropLast, List.length_singleton,
      Nat.sub_add_cancel (by omega)]
    exact henough
  · exact (List.take_of_length_le hlength).trans hset

/-- The events of a prompt row that is drawn. -/
def drawn (s : Session) : List SessionEvent :=
  if s.outRow < s.screen.rows then [] else [.overdrawn s.promptCells]

theorem log_renderInput (s : Session) : s.renderInput.log = s.drawn.reverse ++ s.log := by
  unfold Session.renderInput drawn
  split <;> rfl

/-- The prompt row changes the screen and the log. -/
theorem renderInput_eq (s : Session) :
    s.renderInput = { s with screen := s.renderInput.screen, log := s.renderInput.log } := by
  unfold Session.renderInput
  split <;> rfl

/-- Drawing the prompt row sets that row and shows the grid, and that is all it does to the screen.
-/
theorem screen_renderInput (s : Session) :
    s.renderInput.screen = (s.screen.setRow s.promptRow s.promptCells).present := by
  unfold Session.renderInput
  split <;> rfl

@[simp] theorem rows_renderInput (s : Session) :
    s.renderInput.screen.rows = s.screen.rows := by
  unfold Session.renderInput
  split <;> exact Screen.rows_setRow _ _ _

@[simp] theorem cols_renderInput (s : Session) :
    s.renderInput.screen.cols = s.screen.cols := by
  unfold Session.renderInput
  split <;> exact Screen.cols_setRow _ _ _

theorem outRow_renderInput (s : Session) : s.renderInput.outRow = s.outRow := by
  rw [renderInput_eq]

/-- Showing input adds no row of output. -/
theorem printedRows_of_showsInput {event : SessionEvent} (h : event.showsInput = true)
    (cols : Nat) : printedRows cols [event] = [] := by
  cases event <;> first | rfl | cases h

/-- Showing input leaves an endless screen as it is. -/
theorem scroll_of_showsInput {event : SessionEvent} (h : event.showsInput = true) (cols : Nat)
    (seen : List Row) : scroll cols seen [event] = seen := by
  have hsilent : ∀ row, .overdrawn row ∉ [event] := by
    intro row hrow
    rw [← List.mem_singleton.1 hrow] at h
    cases h
  rw [scroll_eq_append hsilent, printedRows_of_showsInput h, List.append_nil]

/-- Showing some input adds no row, but may draw over the last one. -/
theorem renderInput_scrolls {s : Session} (h : s.Sound) {event : SessionEvent}
    (hevent : event.showsInput = true) : Scrolls (event :: s.drawn) s s.renderInput := by
  have hprinted := printedRows_of_showsInput hevent s.screen.cols
  have hscroll := scroll_of_showsInput hevent s.screen.cols
  have hplace : s.outRow = min s.screen.rows (s.outRow + 0) :=
    (Nat.min_eq_right h.outRow_le).symm
  -- the prompt row is the next row of output, unless the output has filled the grid
  by_cases hrow : s.outRow < s.screen.rows
  · rw [drawn, if_pos hrow]
    refine ⟨?_, fun seen hseen => ?_, iff_of_false ?_ ?_⟩
    · rw [outRow_renderInput, hprinted]
      exact hplace
    · rw [hscroll]
      exact hseen.renderInput hrow
    · rintro ⟨row, hmem⟩
      rw [← List.mem_singleton.1 hmem] at hevent
      cases hevent
    · rintro (⟨-, hle⟩ | hlate)
      · omega
      · exact hlate
  · rw [drawn, if_neg hrow]
    have hboth : [event, .overdrawn s.promptCells] = [event] ++ [.overdrawn s.promptCells] := rfl
    refine ⟨?_, fun seen hseen => ?_, iff_of_true ?_ ?_⟩
    · rw [outRow_renderInput, hboth, printedRows_append, hprinted]
      exact hplace
    · rw [hboth, scroll_append, hscroll]
      exact hseen.renderInput_over h hrow
    · exact ⟨s.promptCells, List.mem_cons_of_mem _ List.mem_cons_self⟩
    · exact Or.inl ⟨hevent, Nat.not_lt.1 hrow⟩

/-- Showing some input on the prompt row, wherever it stands. -/
theorem edit_follows {s : Session} (h : s.Running) {event : SessionEvent}
    (hevent : event.showsInput = true) (change : Editor → Editor) :
    ∃ events, Follows (event :: events) s ((s.record event).edit change) := by
  let edited := record { s with editor := change s.editor } event
  have hsound : edited.Sound := ⟨h.sound.screen, h.sound.outRow_le⟩
  have hedit : (s.record event).edit change = edited.renderInput := rfl
  rw [hedit]
  refine ⟨edited.drawn, ⟨⟨?_, rows_renderInput edited, cols_renderInput edited,
    hsound.renderInput⟩, ?_, ?_, fun _ => ?_⟩⟩
  · rw [log_renderInput, List.reverse_cons, List.append_assoc]
    rfl
  · rw [renderInput_eq]
    exact h.running
  · rw [renderInput_eq]
    exact h.bootMode
  · have hscrolls := renderInput_scrolls hsound hevent
    exact ⟨hscrolls.outRow, fun seen hseen => hscrolls.shows seen ⟨hseen.enough, hseen.above⟩,
      hscrolls.overdrawn⟩

/-! ## Wiping -/

/-- Clearing the screen is told as a wipe. -/
theorem clearScreen_follows {s : Session} (h : s.Running) :
    Follows [.wiped] s s.clearScreen := by
  refine ⟨⟨rfl, rfl, rfl, ⟨h.sound.screen.clear.present, Nat.zero_le _⟩⟩, h.running, h.bootMode,
    fun hwiped => absurd List.mem_cons_self hwiped⟩

theorem resetHard_extends {s : Session} (h : s.Sound) : Extends [.wiped] s s.resetHard :=
  ⟨rfl, rfl, rfl, ⟨h.screen.clear.present, Nat.zero_le _⟩⟩

/-- A blink is told by the prompt row that it draws, if any. -/
theorem blink_extends {s : Session} (h : s.Sound) : ∃ events, Extends events s s.blink := by
  unfold blink
  split
  · have hsound : Sound { s with caretVisible := !s.caretVisible } := ⟨h.screen, h.outRow_le⟩
    exact ⟨_, log_renderInput _, rows_renderInput _, cols_renderInput _, hsound.renderInput⟩
  · exact ⟨[], Extends.refl h⟩

/-! ## A new prompt -/

/-- What a new prompt keeps: it comes below the output, on the grid. -/
structure Prompted (s t : Session) : Prop where
  log : t.log = s.log
  rows : t.screen.rows = s.screen.rows
  cols : t.screen.cols = s.screen.cols
  sound : t.Sound
  outRow_lt : t.outRow < t.screen.rows
  running : t.running = s.running
  bootMode : t.bootMode = s.bootMode
  busy : t.busy = s.busy
  shows : ∀ seen, s.Shows seen → t.Shows seen

/-- Making room for a row changes the screen and the place of the next row, and nothing else. -/
theorem ensureRow_eq (s : Session) :
    s.ensureRow = { s with screen := s.ensureRow.screen, outRow := s.ensureRow.outRow } := by
  unfold ensureRow
  split <;> rfl

/-- A session that has room for its prompt, and the prompt on it. -/
def prompting (s : Session) : Session :=
  render { s with screen := s.screen.setRow s.outRow s.prompt.toList }

/-- A new prompt is drawn in steps: the editor is made ready, room is made, the prompt alone is
shown, and then the whole row. -/
theorem drawPrompt_eq (s : Session) :
    s.drawPrompt = (ensureRow { s with editor := s.editor.atPrompt }).prompting.renderInput :=
  rfl

/-- A new prompt starts with what the editor keeps. -/
theorem editor_drawPrompt (s : Session) : s.drawPrompt.editor = s.editor.atPrompt := by
  rw [drawPrompt_eq, renderInput_eq, ensureRow_eq]
  rfl

/-- Making room and showing the prompt alone keep what a new prompt keeps. -/
theorem prompting_prompted {s : Session} (h : s.Sound) : Prompted s s.ensureRow.prompting := by
  have hready : s.ensureRow.Sound := h.ensureRow
  have hrows : s.ensureRow.prompting.screen.rows = s.screen.rows :=
    (Screen.rows_setRow _ _ _).trans (rows_ensureRow _)
  have hcols : s.ensureRow.prompting.screen.cols = s.screen.cols :=
    (Screen.cols_setRow _ _ _).trans (cols_ensureRow _)
  have hlt : s.ensureRow.prompting.outRow < s.ensureRow.prompting.screen.rows := by
    rw [hrows]
    exact h.outRow_ensureRow_lt
  refine ⟨?_, hrows, hcols, ⟨(hready.screen.setRow _ _).present, Nat.le_of_lt hlt⟩, hlt, ?_, ?_, ?_,
    fun seen hseen => ?_⟩
  · rw [ensureRow_eq]
    rfl
  · rw [ensureRow_eq]
    rfl
  · rw [ensureRow_eq]
    rfl
  · rw [ensureRow_eq]
    rfl
  · have hwritten := (hseen.ensureRow h).setRow s.ensureRow.prompt.toList
    exact ⟨hwritten.enough, hwritten.above⟩

/-- Drawing the input on the prompt row, which is on the grid. -/
theorem Prompted.renderInput {s t : Session} (h : Prompted s t) : Prompted s t.renderInput := by
  -- the row is on the grid, so nothing is drawn over and the log stays as it is
  refine ⟨?_, ?_, ?_, h.sound.renderInput, ?_, ?_, ?_, ?_, fun seen hseen => ?_⟩
  · rw [log_renderInput, drawn, if_pos h.outRow_lt]
    exact h.log
  · rw [rows_renderInput]
    exact h.rows
  · rw [cols_renderInput]
    exact h.cols
  · rw [rows_renderInput, outRow_renderInput]
    exact h.outRow_lt
  · rw [renderInput_eq]
    exact h.running
  · rw [renderInput_eq]
    exact h.bootMode
  · rw [renderInput_eq]
    exact h.busy
  · exact (h.shows seen hseen).renderInput h.outRow_lt

/-- A new prompt keeps what a new prompt keeps, and is drawn on the grid. -/
theorem drawPrompt_prompted {s : Session} (h : s.Sound) : Prompted s s.drawPrompt := by
  have hstart : Sound { s with editor := s.editor.atPrompt } := ⟨h.screen, h.outRow_le⟩
  have hprompted := (prompting_prompted hstart).renderInput
  rw [drawPrompt_eq]
  exact ⟨hprompted.log, hprompted.rows, hprompted.cols, hprompted.sound, hprompted.outRow_lt,
    hprompted.running, hprompted.bootMode, hprompted.busy,
    fun seen hseen => hprompted.shows seen ⟨hseen.enough, hseen.above⟩⟩

end SimTerm.Session

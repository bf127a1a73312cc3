import SimTerm.Proofs.Session.InStep

/-!
# Printing on an endless screen

Lines that are printed one after the other are rows that are put one below the other. The rows above
the next row of output are told by `Scrolls`; those below it (`rowsBelow`) are used up one by one and
otherwise left alone. So the whole grid is told, as an endless screen of which the last rows are
seen: `prints_scroll`.
-/

namespace SimTerm

/-! ## The rows of a text -/

/-- The pieces are the text, cut wherever a row of this width is full; the empty text is one empty
piece. -/
structure CutInto (width : Nat) (cs : List Char) (pieces : List (List Char)) : Prop where
  flatten : pieces.flatten = cs
  full : ∀ piece ∈ pieces.dropLast, piece.length = width
  last : ∃ piece, pieces.getLast? = some piece ∧ piece.length ≤ width ∧ (piece = [] → cs = [])

/-- Even the empty text has a piece. -/
theorem CutInto.ne_nil {width : Nat} {cs : List Char} {pieces : List (List Char)}
    (h : CutInto width cs pieces) : pieces ≠ [] := by
  obtain ⟨piece, hlast, -⟩ := h.last
  rintro rfl
  cases hlast

/-- Wrapping cuts a text wherever a row is full, by induction on the pieces. -/
theorem wrapped_cut {width : Nat} (hwidth : 0 < width) (cs : List Char) :
    CutInto width cs (wrapped width cs) := by
  fun_induction wrapped width cs with
  | case1 cs hfits =>
    have hle : cs.length ≤ width := hfits.resolve_left (Nat.ne_of_gt hwidth)
    exact ⟨List.flatten_singleton, List.forall_mem_nil _, cs, rfl, hle, id⟩
  | case2 cs hlong ih =>
    have hlonger : width < cs.length := Nat.not_le.1 (not_or.1 hlong).2
    obtain ⟨last, hlast, hle, hempty⟩ := ih.last
    refine ⟨?_, ?_, last, ?_, hle, fun hnil => ?_⟩
    · rw [List.flatten_cons, ih.flatten, List.take_append_drop]
    · rw [List.dropLast_cons_of_ne_nil ih.ne_nil]
      refine List.forall_mem_cons.2 ⟨?_, ih.full⟩
      rw [List.length_take]
      exact Nat.min_eq_left (Nat.le_of_lt hlonger)
    · rw [List.getLast?_cons_of_ne_nil ih.ne_nil]
      exact hlast
    · -- the last piece cannot be empty: more is left than fits into the first
      have hrest : (cs.drop width).length = 0 := by rw [hempty hnil, List.length_nil]
      rw [List.length_drop] at hrest
      omega

namespace Session

/-! ## The rows below the output -/

/-- The rows of the grid from the next row of output on. -/
def rowsBelow (s : Session) : List Row :=
  s.screen.grid.drop s.outRow

/-- A row of output takes one of the rows below, if there is one. -/
theorem rowsBelow_putRow {s : Session} (h : s.Sound) (text : List Char) :
    (s.putRow text).rowsBelow = s.rowsBelow.drop 1 := by
  by_cases hrow : s.outRow < s.screen.rows
  · rw [rowsBelow, putRow, ensureRow, if_pos hrow]
    dsimp only
    rw [Screen.grid_setRow hrow, List.drop_set_of_lt (Nat.lt_succ_self _), rowsBelow, List.drop_drop]
  · -- a full grid scrolls by one row, and has no row below before or after it
    have hbelow : s.rowsBelow = [] := by
      rw [rowsBelow, List.drop_eq_nil_iff, h.screen.length]
      exact Nat.not_lt.1 hrow
    have hfull : s.outRow = s.screen.rows := Nat.le_antisymm h.outRow_le (Nat.not_lt.1 hrow)
    rw [hbelow, List.drop_nil, rowsBelow, List.drop_eq_nil_iff, (h.putRow text).screen.length,
      rows_putRow, outRow_putRow h text, hfull]
    omega

/-- Every row of output uses up one of the rows below. -/
theorem rowsBelow_foldl_putRow {s : Session} (h : s.Sound) (texts : List (List Char)) :
    (texts.foldl putRow s).rowsBelow = s.rowsBelow.drop texts.length := by
  induction texts generalizing s with
  | nil => rfl
  | cons text texts ih =>
    rw [List.foldl_cons, ih (h.putRow text), rowsBelow_putRow h, List.drop_drop, List.length_cons,
      Nat.add_comm]

/-- A printed line uses up as many of the rows below as it has pieces. -/
theorem rowsBelow_print {s : Session} (h : s.Sound) (line : String) :
    (s.print line).rowsBelow =
      s.rowsBelow.drop (printedRows s.screen.cols [.printed line]).length := by
  have hcollected : (s.collected line).Sound := ⟨h.screen, h.outRow_le⟩
  have hput := rowsBelow_foldl_putRow hcollected (wrapped s.screen.cols line.toList)
  rw [printedRows, List.flatMap_singleton, SessionEvent.rows, List.length_map]
  exact hput

/-! ## Printing lines -/

/-- What lines printed one after the other leave on the screen. -/
structure PutLines (lines : List String) (s t : Session) : Prop where
  extended : Extends (lines.map .printed) s t
  scrolled : Scrolls (lines.map .printed) s t
  below : t.rowsBelow =
    s.rowsBelow.drop (printedRows s.screen.cols (lines.map .printed)).length

/-- Printed lines put their rows one below the other, by induction on the lines. -/
theorem putLines {s : Session} (h : s.Sound) (lines : List String) :
    PutLines lines s (lines.foldl print s) := by
  induction lines generalizing s with
  | nil =>
    refine ⟨Extends.refl h, ⟨?_, fun _ hseen => hseen, ?_⟩, rfl⟩
    · exact (Nat.min_eq_right h.outRow_le).symm
    · exact iff_of_false (fun ⟨_, hmem⟩ => List.not_mem_nil hmem) id
  | cons line lines ih =>
    have hfirst := print_extends h line
    have hrest := ih hfirst.sound
    refine ⟨hfirst.trans hrest.extended, (print_scrolls h line).trans hfirst hrest.scrolled, ?_⟩
    rw [List.foldl_cons, hrest.below, rowsBelow_print h, hfirst.cols, List.drop_drop,
      ← List.length_append, ← printedRows_append]
    rfl

/-- The rows of lines that are printed. -/
theorem printedRows_lines (cols : Nat) (lines : List String) :
    printedRows cols (lines.map .printed) =
      lines.flatMap fun line => (wrapped cols line.toList).map (Row.fit · cols) := by
  rw [printedRows, List.flatMap_map]
  rfl

/-- Printing draws over nothing. -/
theorem PutLines.shows {lines : List String} {s t : Session} (h : PutLines lines s t)
    {seen : List Row} (hseen : s.Shows seen) :
    t.Shows (seen ++ printedRows s.screen.cols (lines.map .printed)) := by
  have hsilent : ∀ row, .overdrawn row ∉ lines.map SessionEvent.printed := by simp
  rw [← scroll_eq_append hsilent]
  exact h.scrolled.shows seen hseen

/-! ## The next row of output -/

/-- An edit keeps a session sound. -/
theorem Sound.edit {s : Session} (h : s.Sound) (change : Editor → Editor) :
    (s.edit change).Sound := by
  have hedited : Sound { s with editor := change s.editor } := ⟨h.screen, h.outRow_le⟩
  exact hedited.renderInput

/-- A step through the history keeps a session sound. -/
theorem Sound.browse {s : Session} (h : s.Sound) (step : Option String × History) :
    (s.browse step).Sound := by
  obtain ⟨line?, history⟩ := step
  have hbrowsing : Sound { s with history } := ⟨h.screen, h.outRow_le⟩
  cases line? with
  | none => exact hbrowsing
  | some line => exact hbrowsing.edit (·.replace line.toList)

/-- Committing keeps a session sound. -/
theorem Sound.commit {s : Session} (h : s.Sound) : s.commit.2.Sound := by
  refine ⟨commit_shaped h.screen, ?_⟩
  unfold Session.commit
  dsimp only
  rw [outRow_ensureRow, rows_ensureRow]
  split
  · next hlt => exact Nat.le_of_lt hlt
  · exact Nat.sub_le _ _

/-- Only a smaller grid can leave the next row of output further below it. -/
theorem Sound.perform {s : Session} (h : s.Sound) {call : Call}
    (hcall : ∀ rows cols, call = .resize rows cols → s.screen.rows ≤ max rows minRows) :
    (s.perform call).Sound := by
  -- what is beside the screen and the next row of output does not count
  have hmodes {t : Session} (hscreen : t.screen = s.screen) (hrow : t.outRow = s.outRow) : t.Sound :=
    ⟨hscreen ▸ h.screen, hscreen ▸ hrow ▸ h.outRow_le⟩
  cases call with
  | insert c =>
    rw [Session.perform, Session.insert]
    split
    · exact h
    · exact h.edit (·.put [c])
  | backspace =>
    rw [Session.perform, Session.backspace]
    split
    · exact h
    · exact h.edit Editor.backspace
  | delete =>
    rw [Session.perform, Session.delete]
    split
    · exact h.edit Editor.delete
    · exact h
  | paste text =>
    have hrecorded : (s.record (.pasted text)).Sound := hmodes rfl rfl
    exact hrecorded.edit (·.paste text.toList)
  | echo text =>
    have hrecorded : (s.record (.echoed text)).Sound := hmodes rfl rfl
    exact hrecorded.edit fun _ => Editor.echo text.toList
  | moveCursor delta => exact h.edit (·.move delta)
  | home => exact h.edit Editor.home
  | toEnd => exact h.edit Editor.toEnd
  | historyUp => exact h.browse s.history.up
  | historyDown => exact h.browse s.history.down
  | drawPrompt => exact (drawPrompt_prompted h).sound
  | start =>
    have hrunning : Sound { s with running := true } := hmodes rfl rfl
    exact (drawPrompt_prompted hrunning).sound
  | commit => exact h.commit
  | resetHard => exact (resetHard_extends h).sound
  | print line => exact (print_extends h line).sound
  | renderInput => exact h.renderInput
  | clearScreen => exact ⟨h.screen.clear.present, Nat.zero_le _⟩
  | blink =>
    obtain ⟨_, hblinked⟩ := blink_extends h
    exact hblinked.sound
  | resize rows cols =>
    exact ⟨(Screen.Shaped.resize rows cols).present,
      Nat.le_trans h.outRow_le (hcall rows cols rfl)⟩
  | endCapture =>
    rw [Session.perform, Session.endCapture]
    split
    · exact h
    · exact hmodes rfl rfl
  | stop | setBootMode | setBusy | changeDir | back | beginCapture => exact hmodes rfl rfl

/-- The next row of output stands on the grid or just below it, and everything that may be asked of
the session keeps that, but for a change of the size to fewer rows. Lines are printed, each cut into
pieces as long as a row is wide. Then the grid is that of an endless screen, which showed the rows
above the next row of output and has the padded pieces in order below them: as long as it has no
more rows than the grid, it stands at the top of the grid, and the grid is as before below it;
otherwise its last rows are the grid. -/
theorem prints_scroll {s : Session} (h : s.Sound) :
    (∀ call, (∀ rows cols, call = .resize rows cols → s.screen.rows ≤ max rows minRows) →
      (s.perform call).outRow ≤ (s.perform call).screen.rows) ∧
      (∀ text : String,
        CutInto s.screen.cols text.toList (wrapped s.screen.cols text.toList)) ∧
      ∀ lines : List String,
        let t := lines.foldl print s
        let rows := s.screen.rows
        let seen := s.screen.grid.take s.outRow ++ lines.flatMap fun line =>
          (wrapped s.screen.cols line.toList).map (Row.fit · s.screen.cols)
        t.screen.rows = rows ∧ t.screen.cols = s.screen.cols ∧
          if seen.length ≤ rows then
            t.screen.grid = seen ++ s.screen.grid.drop seen.length ∧ t.outRow = seen.length
          else t.screen.grid = seen.drop (seen.length - rows) ∧ t.outRow = rows := by
  refine ⟨fun call hcall => (h.perform hcall).outRow_le,
    fun text => wrapped_cut h.screen.cols_pos text.toList, fun lines => ?_⟩
  intro t rows seen
  have hput : PutLines lines s t := putLines h lines
  have hprinted := printedRows_lines s.screen.cols lines
  -- what the endless screen shows, the rows above and the printed ones, is as long as `seen`
  have habove : s.rowsAbove.length = s.outRow := by
    rw [rowsAbove, List.length_take, h.screen.length]
    exact Nat.min_eq_left h.outRow_le
  have hlength : seen.length =
      s.outRow + (printedRows s.screen.cols (lines.map .printed)).length := by
    rw [List.length_append, ← rowsAbove, habove, hprinted]
  have hrow : t.outRow = min rows seen.length := hlength ▸ hput.scrolled.outRow
  -- so the rows above the new next row are the end of `seen`, and below it nothing has moved
  have hshows : t.rowsAbove = lastRows t.outRow seen := by
    have hseen := hput.shows (shows_rowsAbove h)
    rw [hprinted] at hseen
    exact hseen.above
  have hgrid : t.screen.grid = lastRows t.outRow seen ++ s.screen.grid.drop seen.length := by
    have hbelow : t.rowsBelow = s.screen.grid.drop seen.length := by
      rw [hput.below, rowsBelow, List.drop_drop, hlength]
    rw [← hshows, ← hbelow, rowsAbove, rowsBelow, List.take_append_drop]
  refine ⟨hput.extended.rows, hput.extended.cols, ?_⟩
  split
  · next hfits =>
    have hall : t.outRow = seen.length := hrow.trans (Nat.min_eq_right hfits)
    rw [hgrid, hall, lastRows, Nat.sub_self, List.drop_zero]
    exact ⟨rfl, rfl⟩
  · next hmore =>
    have hfull : t.outRow = rows := hrow.trans (Nat.min_eq_left (Nat.le_of_not_le hmore))
    have hnone : s.screen.grid.drop seen.length = [] := by
      rw [List.drop_eq_nil_iff, h.screen.length]
      exact Nat.le_of_not_le hmore
    rw [hgrid, hfull, hnone, List.append_nil]
    exact ⟨rfl, rfl⟩

/-- A session with output down to the last row. -/
def filledUp : Session :=
  { ofSettings { rows := 12, cols := 40 } [] with outRow := 12 }

/-- An empty line takes a row of its own, and a line that is one character too long takes two. -/
theorem prints_scroll_filled_up :
    let t := ["", String.ofList (List.replicate 41 'x')].foldl print filledUp
    filledUp.Sound ∧
      t.screen.grid = List.replicate 10 (Row.blank 40) ++
        [List.replicate 40 'x', 'x' :: List.replicate 39 ' '] ∧
      t.outRow = 12 ∧ (t.perform .commit).outRow ≤ (t.perform .commit).screen.rows := by
  intro t
  have hsound : filledUp.Sound := ⟨Screen.ofSize_shaped 12 40 [], Nat.le_refl 12⟩
  have hagain : t.Sound := (putLines hsound _).extended.sound
  obtain ⟨-, -, hprinted⟩ := prints_scroll hsound
  obtain ⟨-, -, hscrolled⟩ := hprinted ["", String.ofList (List.replicate 41 'x')]
  rw [if_neg (by decide +kernel)] at hscrolled
  obtain ⟨hgrid, hrow⟩ := hscrolled
  exact ⟨hsound, hgrid.trans (by decide +kernel), hrow,
    (prints_scroll hagain).1 .commit fun _ _ hresize => by cases hresize⟩

end Session

end SimTerm

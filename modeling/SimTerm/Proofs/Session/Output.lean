import SimTerm.Proofs.Screen
import SimTerm.Proofs.Session.Transcript

/-!
# Output on the screen

`rowsAbove` are the rows of output that are still on the grid. `Shows` says that they are the last
rows of an endless screen; each way of putting something on the grid keeps that, for the endless
screen with the new row below or, where the prompt row is drawn over output, in the place of the
last one.
-/

namespace SimTerm.Session

/-- The rows of the grid above the next row of output. -/
def rowsAbove (s : Session) : List Row :=
  s.screen.grid.take s.outRow

/-- The grid has its shape, and the next row of output stands on it or just below it. -/
structure Sound (s : Session) : Prop where
  screen : s.screen.Shaped
  outRow_le : s.outRow ≤ s.screen.rows

/-- The rows above the next row of output are the last of these. -/
structure Shows (s : Session) (seen : List Row) : Prop where
  enough : s.outRow ≤ seen.length
  above : s.rowsAbove = lastRows s.outRow seen

/-- What is above the next row of output is shown. -/
theorem shows_rowsAbove {s : Session} (h : s.Sound) : s.Shows s.rowsAbove := by
  have hlength : s.rowsAbove.length = s.outRow := by
    rw [rowsAbove, List.length_take, h.screen.length]
    exact Nat.min_eq_left h.outRow_le
  refine ⟨Nat.le_of_eq hlength.symm, ?_⟩
  rw [lastRows, hlength, Nat.sub_self, List.drop_zero]

/-! ## One row -/

/-- Room is made on the last row, where there is none below it. -/
@[simp] theorem outRow_ensureRow (s : Session) :
    s.ensureRow.outRow = if s.outRow < s.screen.rows then s.outRow else s.screen.rows - 1 := by
  unfold ensureRow
  split <;> rfl

@[simp] theorem rows_ensureRow (s : Session) : s.ensureRow.screen.rows = s.screen.rows := by
  unfold ensureRow
  split <;> rfl

@[simp] theorem cols_ensureRow (s : Session) : s.ensureRow.screen.cols = s.screen.cols := by
  unfold ensureRow
  split <;> rfl

/-- Where room was made, the next row of output is on the grid. -/
theorem Sound.outRow_ensureRow_lt {s : Session} (h : s.Sound) :
    s.ensureRow.outRow < s.screen.rows := by
  have hpos := h.screen.rows_pos
  rw [outRow_ensureRow]
  split
  · assumption
  · omega

/-- Making room keeps a session sound. -/
theorem Sound.ensureRow {s : Session} (h : s.Sound) : s.ensureRow.Sound := by
  refine ⟨?_, ?_⟩
  · unfold Session.ensureRow
    split
    · exact h.screen
    · exact h.screen.scrollUp 1
  · rw [rows_ensureRow]
    exact Nat.le_of_lt h.outRow_ensureRow_lt

/-- When output has come to the end of the screen, the whole grid is output. -/
theorem Shows.grid_of_full {s : Session} {seen : List Row} (hs : s.Sound) (h : s.Shows seen)
    (hrow : ¬ s.outRow < s.screen.rows) :
    s.outRow = s.screen.rows ∧ s.screen.grid = lastRows s.screen.rows seen := by
  have hfull : s.outRow = s.screen.rows := Nat.le_antisymm hs.outRow_le (Nat.not_lt.1 hrow)
  refine ⟨hfull, ?_⟩
  rw [← hfull, ← h.above, rowsAbove, List.take_of_length_le]
  exact Nat.le_of_eq (hs.screen.length.trans hfull.symm)

/-- Making room for a row of output loses only the row at the top. -/
theorem Shows.ensureRow {s : Session} {seen : List Row} (hs : s.Sound) (h : s.Shows seen) :
    s.ensureRow.Shows seen := by
  by_cases hrow : s.outRow < s.screen.rows
  · rw [Session.ensureRow, if_pos hrow]
    exact h
  · -- scrolling takes the first row of a grid that is all output
    obtain ⟨hfull, hgrid⟩ := h.grid_of_full hs hrow
    have hpos := hs.screen.rows_pos
    have henough := h.enough
    obtain ⟨last, hlast⟩ : ∃ last, s.screen.rows = last + 1 := ⟨s.screen.rows - 1, by omega⟩
    have hout : s.ensureRow.outRow = last := by
      rw [outRow_ensureRow, if_neg hrow, hlast]
      rfl
    have hrest : s.screen.grid.drop 1 = lastRows last seen := by
      rw [hgrid, hlast]
      exact drop_one_lastRows (by omega)
    refine ⟨by omega, ?_⟩
    rw [rowsAbove, hout, Session.ensureRow, if_neg hrow]
    dsimp only
    have hlength : (lastRows last seen).length = last := length_lastRows (by omega)
    rw [Screen.grid_scrollUp_one hpos, hrest, List.take_append_of_le_length (Nat.le_of_eq hlength.symm),
      List.take_of_length_le (Nat.le_of_eq hlength)]

/-- The rows down to one that was set are those above it and the new one. -/
theorem take_succ_set {grid : Grid} {k : Nat} (h : k < grid.length) (row : Row) :
    (grid.set k row).take (k + 1) = grid.take k ++ [row] := by
  have hlength : (grid.take k).length = k := by
    rw [List.length_take]
    omega
  rw [List.set_eq_take_append_cons_drop, if_pos h, List.take_append, hlength,
    Nat.add_sub_cancel_left, List.take_succ_cons, List.take_zero,
    List.take_of_length_le (Nat.le_succ_of_le (Nat.le_of_eq hlength))]

/-- A row of output below the others. -/
theorem Shows.place {s : Session} {seen : List Row} (hs : s.Sound) (h : s.Shows seen)
    (hrow : s.outRow < s.screen.rows) (text : List Char) :
    Shows { s with screen := s.screen.setRow s.outRow text, outRow := s.outRow + 1 }
      (seen ++ [Row.fit text s.screen.cols]) := by
  have henough := h.enough
  refine ⟨?_, ?_⟩
  · rw [List.length_append, List.length_singleton]
    dsimp only
    omega
  · have habove := h.above
    rw [rowsAbove] at habove
    rw [rowsAbove]
    dsimp only
    -- the new row goes right below the rows above, and is the last that is shown
    rw [Screen.grid_setRow hrow, lastRows_append_singleton, ← habove,
      take_succ_set (hs.screen.length ▸ hrow)]

/-- A row that is set where output goes next keeps a session sound, with the next place below it. -/
theorem Sound.place {s : Session} (h : s.Sound) (hrow : s.outRow < s.screen.rows)
    (text : List Char) :
    Sound { s with screen := s.screen.setRow s.outRow text, outRow := s.outRow + 1 } := by
  refine ⟨h.screen.setRow s.outRow text, ?_⟩
  rw [Screen.rows_setRow]
  exact hrow

/-- What is written on the next row of output itself is not yet output. -/
theorem Shows.setRow {s : Session} {seen : List Row} (h : s.Shows seen) (text : List Char) :
    Shows { s with screen := s.screen.setRow s.outRow text } seen := by
  refine ⟨h.enough, ?_⟩
  have habove := h.above
  rw [rowsAbove] at habove ⊢
  dsimp only
  unfold Screen.setRow
  split
  · rw [List.take_set_of_le (Nat.le_refl _)]
    exact habove
  · exact habove

/-! ## Printing -/

/-- A row of output keeps a session sound. -/
theorem Sound.putRow {s : Session} (h : s.Sound) (text : List Char) : (s.putRow text).Sound := by
  have hrow := h.outRow_ensureRow_lt
  rw [← rows_ensureRow] at hrow
  exact h.ensureRow.place hrow text

/-- A row of output moves the next place down, at most to just below the grid. -/
theorem outRow_putRow {s : Session} (h : s.Sound) (text : List Char) :
    (s.putRow text).outRow = min s.screen.rows (s.outRow + 1) := by
  have hpos := h.screen.rows_pos
  have hle := h.outRow_le
  simp only [putRow, outRow_ensureRow]
  split <;> omega

@[simp] theorem rows_putRow (s : Session) (text : List Char) :
    (s.putRow text).screen.rows = s.screen.rows := by
  simp [putRow]

@[simp] theorem cols_putRow (s : Session) (text : List Char) :
    (s.putRow text).screen.cols = s.screen.cols := by
  simp [putRow]

/-- A row of output comes below what was shown. -/
theorem Shows.putRow {s : Session} {seen : List Row} (hs : s.Sound) (h : s.Shows seen)
    (text : List Char) : (s.putRow text).Shows (seen ++ [Row.fit text s.screen.cols]) := by
  have hrow := hs.outRow_ensureRow_lt
  rw [← rows_ensureRow] at hrow
  have hplaced := (h.ensureRow hs).place hs.ensureRow hrow text
  rw [cols_ensureRow] at hplaced
  exact hplaced

/-- What rows of output put one below the other keep and change. -/
structure PutRows (texts : List (List Char)) (s t : Session) : Prop where
  sound : t.Sound
  rows : t.screen.rows = s.screen.rows
  cols : t.screen.cols = s.screen.cols
  outRow : t.outRow = min s.screen.rows (s.outRow + texts.length)
  shows : ∀ seen, s.Shows seen → t.Shows (seen ++ texts.map (Row.fit · s.screen.cols))

/-- Rows of output come one below the other, by induction on the rows. -/
theorem putRows {s : Session} (h : s.Sound) (texts : List (List Char)) :
    PutRows texts s (texts.foldl putRow s) := by
  induction texts generalizing s with
  | nil =>
    refine ⟨h, rfl, rfl, ?_, fun seen hseen => ?_⟩
    · exact (Nat.min_eq_right h.outRow_le).symm
    · rw [List.map_nil, List.append_nil]
      exact hseen
  | cons text texts ih =>
    have hrest := ih (h.putRow text)
    rw [List.foldl_cons]
    refine ⟨hrest.sound, ?_, ?_, ?_, fun seen hseen => ?_⟩
    · rw [hrest.rows, rows_putRow]
    · rw [hrest.cols, cols_putRow]
    · rw [hrest.outRow, rows_putRow, outRow_putRow h, List.length_cons]
      omega
    · have hshown := hrest.shows _ (hseen.putRow h text)
      rw [cols_putRow, List.append_assoc] at hshown
      exact hshown

end SimTerm.Session

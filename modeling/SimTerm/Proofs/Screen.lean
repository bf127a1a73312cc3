import SimTerm.Screen

/-!
# The shape of a screen

A screen is *shaped* if its grid has the rows and columns that the screen says, and neither fewer
than the smallest screen has. Every operation keeps that, because a text put into a row is fitted to
the width, and a change of the size makes it so.
-/

namespace SimTerm

namespace Row

@[simp] theorem length_blank (cols : Nat) : (blank cols).length = cols :=
  List.length_replicate

/-- A fitted text fills the row. -/
@[simp] theorem length_fit (text : List Char) (cols : Nat) : (fit text cols).length = cols := by
  rw [fit, List.length_append, List.length_take, length_blank]
  omega

/-- There are enough spaces behind the text if there are as many as the row is wide. -/
theorem fit_eq_take (text : List Char) (cols : Nat) :
    fit text cols = (text ++ List.replicate cols ' ').take cols := by
  rw [fit, blank, List.take_append, List.take_replicate, Nat.min_eq_left (Nat.sub_le _ _)]

/-- A row of the right width is not changed. -/
theorem fit_of_length {row : Row} {cols : Nat} (h : row.length = cols) : fit row cols = row := by
  rw [fit, ← h, List.take_length, Nat.sub_self, blank, List.replicate_zero, List.append_nil]

end Row

namespace Screen

/-- A grid of the right size. -/
structure Shaped (s : Screen) : Prop where
  minRows_le : minRows ≤ s.rows
  minCols_le : minCols ≤ s.cols
  length : s.grid.length = s.rows
  width : ∀ row ∈ s.grid, row.length = s.cols

theorem Shaped.rows_pos {s : Screen} (h : s.Shaped) : 0 < s.rows :=
  Nat.lt_of_lt_of_le (by decide) h.minRows_le

theorem Shaped.cols_pos {s : Screen} (h : s.Shaped) : 0 < s.cols :=
  Nat.lt_of_lt_of_le (by decide) h.minCols_le

@[simp] theorem rows_setRow (s : Screen) (row : Nat) (text : List Char) :
    (s.setRow row text).rows = s.rows := by
  unfold setRow
  split <;> rfl

@[simp] theorem cols_setRow (s : Screen) (row : Nat) (text : List Char) :
    (s.setRow row text).cols = s.cols := by
  unfold setRow
  split <;> rfl

/-- Setting a row that is on the grid replaces that row by the fitted text. -/
theorem grid_setRow {s : Screen} {row : Nat} (h : row < s.rows) (text : List Char) :
    (s.setRow row text).grid = s.grid.set row (Row.fit text s.cols) := by
  rw [setRow, if_pos h]

/-- A text put into a row leaves the other rows alone. -/
theorem getElem?_setRow_ne (s : Screen) {row i : Nat} (h : row ≠ i) (text : List Char) :
    (s.setRow row text).grid[i]? = s.grid[i]? := by
  unfold setRow
  split
  · exact List.getElem?_set_ne h
  · rfl

/-- Scrolling by one row drops the first row and adds a blank one below. -/
theorem grid_scrollUp_one {s : Screen} (h : 0 < s.rows) :
    (s.scrollUp 1).grid = s.grid.drop 1 ++ [Row.blank s.cols] := by
  have hone : min 1 s.rows = 1 := Nat.min_eq_left h
  rw [scrollUp, hone, List.replicate_one]

theorem ofSize_shaped (rows cols : Nat) (frames : List Grid) :
    (ofSize rows cols frames).Shaped := by
  refine ⟨Nat.le_max_right _ _, Nat.le_max_right _ _, List.length_replicate, fun row hrow => ?_⟩
  rw [List.eq_of_mem_replicate hrow]
  exact Row.length_blank _

/-- Setting a row keeps the shape, also when the row is not on the grid. -/
theorem Shaped.setRow {s : Screen} (h : s.Shaped) (row : Nat) (text : List Char) :
    (s.setRow row text).Shaped := by
  by_cases hrow : row < s.rows
  · refine ⟨?_, ?_, ?_, ?_⟩
    · rw [rows_setRow]
      exact h.minRows_le
    · rw [cols_setRow]
      exact h.minCols_le
    · rw [grid_setRow hrow, List.length_set, rows_setRow]
      exact h.length
    · rw [grid_setRow hrow, cols_setRow]
      intro r hr
      rcases List.mem_or_eq_of_mem_set hr with hold | rfl
      · exact h.width r hold
      · exact Row.length_fit _ _
  · rw [Screen.setRow, if_neg hrow]
    exact h

/-- Scrolling keeps the shape, by whatever number of rows. -/
theorem Shaped.scrollUp {s : Screen} (h : s.Shaped) (n : Nat) : (s.scrollUp n).Shaped := by
  refine ⟨h.minRows_le, h.minCols_le, ?_, ?_⟩
  · have hlength := h.length
    simp only [Screen.scrollUp, List.length_append, List.length_drop, List.length_replicate]
    omega
  · intro row hrow
    rcases List.mem_append.1 hrow with hold | hnew
    · exact h.width row (List.mem_of_mem_drop hold)
    · rw [List.eq_of_mem_replicate hnew]
      exact Row.length_blank _

theorem Shaped.clear {s : Screen} (h : s.Shaped) : s.clear.Shaped := by
  refine ⟨h.minRows_le, h.minCols_le, List.length_replicate, fun row hrow => ?_⟩
  rw [List.eq_of_mem_replicate hrow]
  exact Row.length_blank _

theorem Shaped.resize {s : Screen} (rows cols : Nat) : (s.resize rows cols).Shaped := by
  refine ⟨Nat.le_max_right _ _, Nat.le_max_right _ _, ?_, fun row hrow => ?_⟩
  · have hkept : ((s.grid.take (max rows minRows)).map (Row.fit · (max cols minCols))).length ≤
        max rows minRows := by
      rw [List.length_map]
      exact List.length_take_le _ _
    simp only [Screen.resize, List.length_append, List.length_replicate]
    omega
  · rcases List.mem_append.1 hrow with hkept | hnew
    · obtain ⟨old, -, rfl⟩ := List.mem_map.1 hkept
      exact Row.length_fit _ _
    · rw [List.eq_of_mem_replicate hnew]
      exact Row.length_blank _

theorem Shaped.present {s : Screen} (h : s.Shaped) : s.present.Shaped :=
  ⟨h.minRows_le, h.minCols_le, h.length, h.width⟩

end Screen

end SimTerm

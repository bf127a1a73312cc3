import SimTerm.Proofs.Screen

/-!
# What is kept of a grid

A grid is told cell by cell: `cell` is the character in a row and a column, if the grid has both.
Changing the size keeps every cell that both grids have and makes the others spaces (`cell_resize`);
scrolling moves the cells up and does the same (`cell_scrollUp`). As the cells tell the grid
(`ext_cell`), the laws of the two operations follow: `resizing_keeps`.
-/

namespace SimTerm

/-- A text that is fitted to a width has its own characters, and spaces behind them. -/
theorem Row.getElem?_fit (text : List Char) {cols i : Nat} (hi : i < cols) :
    (fit text cols)[i]? = some (text[i]?.getD ' ') := by
  rw [fit_eq_take, List.getElem?_take_of_lt hi]
  by_cases hlt : i < text.length
  · rw [List.getElem?_append_left hlt, List.getElem?_eq_getElem hlt, Option.getD_some]
  · have hle : text.length ≤ i := Nat.not_lt.1 hlt
    rw [List.getElem?_append_right hle, List.getElem?_replicate_of_lt (by omega),
      List.getElem?_eq_none hle, Option.getD_none]

theorem Row.getElem?_blank {cols i : Nat} (hi : i < cols) : (blank cols)[i]? = some ' ' :=
  List.getElem?_replicate_of_lt hi

namespace Screen

/-- The character in a row and a column of the grid. -/
def cell (s : Screen) (row col : Nat) : Option Char :=
  s.grid[row]?.bind fun cells => cells[col]?

variable {s t : Screen}

/-! ## The cells tell the grid -/

namespace Shaped

/-- A shaped screen has a character in every cell. -/
theorem exists_cell (h : s.Shaped) {row col : Nat} (hrow : row < s.rows) (hcol : col < s.cols) :
    ∃ c, s.cell row col = some c := by
  have hlt : row < s.grid.length := h.length ▸ hrow
  have hwidth : col < s.grid[row].length := by
    rw [h.width _ (List.getElem_mem hlt)]
    exact hcol
  refine ⟨s.grid[row][col], ?_⟩
  rw [cell, List.getElem?_eq_getElem hlt, Option.bind_some, List.getElem?_eq_getElem hwidth]

theorem cell_eq_none (h : s.Shaped) {row : Nat} (hrow : s.rows ≤ row) (col : Nat) :
    s.cell row col = none := by
  rw [cell, List.getElem?_eq_none (h.length ▸ hrow), Option.bind_none]

theorem getElem?_eq_rowAt (h : s.Shaped) {row : Nat} (hrow : row < s.rows) :
    s.grid[row]? = some (s.rowAt row) := by
  rw [rowAt, List.getElem?_eq_getElem (h.length ▸ hrow), Option.getD_some]

/-- Two grids of one size are the same if they have the same cells. -/
theorem grid_ext (hs : s.Shaped) (ht : t.Shaped) (hrows : t.rows = s.rows)
    (hcols : t.cols = s.cols)
    (hcell : ∀ row col, row < s.rows → col < s.cols → t.cell row col = s.cell row col) :
    t.grid = s.grid := by
  refine List.ext_getElem (by rw [ht.length, hs.length, hrows]) fun row hrow hrow' => ?_
  have hlt : row < s.rows := hs.length ▸ hrow'
  have hwidth : t.grid[row].length = s.cols := (ht.width _ (List.getElem_mem hrow)).trans hcols
  have hwidth' : s.grid[row].length = s.cols := hs.width _ (List.getElem_mem hrow')
  refine List.ext_getElem? fun col => ?_
  by_cases hcol : col < s.cols
  · have hsame := hcell row col hlt hcol
    rwa [cell, cell, List.getElem?_eq_getElem hrow, List.getElem?_eq_getElem hrow',
      Option.bind_some, Option.bind_some] at hsame
  · have hle : s.cols ≤ col := Nat.not_lt.1 hcol
    rw [List.getElem?_eq_none (hwidth ▸ hle), List.getElem?_eq_none (hwidth' ▸ hle)]

end Shaped

/-! ## Changing the size -/

/-- A row of a resized screen is the old row, fitted, or blank where there was none. -/
theorem getElem?_resize (s : Screen) {rows cols row : Nat} (hrow : row < max rows minRows) :
    (s.resize rows cols).grid[row]? =
      some (s.grid[row]?.elim (Row.blank (max cols minCols)) (Row.fit · (max cols minCols))) := by
  have hkept : ((s.grid.take (max rows minRows)).map (Row.fit · (max cols minCols)))[row]? =
      s.grid[row]?.map (Row.fit · (max cols minCols)) := by
    rw [List.getElem?_map, List.getElem?_take_of_lt hrow]
  by_cases hlt : row < s.grid.length
  · have hfits : row < ((s.grid.take (max rows minRows)).map
        (Row.fit · (max cols minCols))).length := by
      rw [List.length_map, List.length_take]
      exact Nat.lt_min.2 ⟨hrow, hlt⟩
    rw [resize, List.getElem?_append_left hfits, hkept, List.getElem?_eq_getElem hlt]
    rfl
  · have hle : s.grid.length ≤ row := Nat.not_lt.1 hlt
    have hbeyond : ((s.grid.take (max rows minRows)).map
        (Row.fit · (max cols minCols))).length ≤ row := by
      rw [List.length_map, List.length_take]
      exact Nat.le_trans (Nat.min_le_right _ _) hle
    rw [resize, List.getElem?_append_right hbeyond, List.getElem?_replicate_of_lt (by omega),
      List.getElem?_eq_none hle]
    rfl

/-- A cell of a resized screen has the old character, or a blank where there was none. -/
theorem cell_resize (s : Screen) {rows cols row col : Nat} (hrow : row < max rows minRows)
    (hcol : col < max cols minCols) :
    (s.resize rows cols).cell row col = some ((s.cell row col).getD ' ') := by
  rw [cell, getElem?_resize s hrow, Option.bind_some, cell]
  cases s.grid[row]? with
  | none => exact Row.getElem?_blank hcol
  | some cells => exact Row.getElem?_fit cells hcol

/-- A screen that has this size already is not changed. -/
theorem Shaped.resize_self (h : s.Shaped) : s.resize s.rows s.cols = s := by
  have hrows : (s.resize s.rows s.cols).rows = s.rows := Nat.max_eq_left h.minRows_le
  have hcols : (s.resize s.rows s.cols).cols = s.cols := Nat.max_eq_left h.minCols_le
  have hgrid : (s.resize s.rows s.cols).grid = s.grid := by
    refine h.grid_ext (Shaped.resize _ _) hrows hcols fun row col hrow hcol => ?_
    obtain ⟨c, hc⟩ := h.exists_cell hrow hcol
    rw [cell_resize s (Nat.lt_of_lt_of_le hrow (Nat.le_max_left _ _))
      (Nat.lt_of_lt_of_le hcol (Nat.le_max_left _ _)), hc, Option.getD_some]
  have hresized : s.resize s.rows s.cols =
      { s with rows := (s.resize s.rows s.cols).rows, cols := (s.resize s.rows s.cols).cols
               grid := (s.resize s.rows s.cols).grid } := rfl
  rw [hresized, hrows, hcols, hgrid]

/-- Nothing of what a smaller grid shows gets lost in a larger one. -/
theorem resize_resize (s : Screen) {rows cols rows' cols' : Nat}
    (hrows : max rows' minRows ≤ max rows minRows) (hcols : max cols' minCols ≤ max cols minCols) :
    (s.resize rows cols).resize rows' cols' = s.resize rows' cols' := by
  have hgrid : ((s.resize rows cols).resize rows' cols').grid = (s.resize rows' cols').grid := by
    refine (Shaped.resize rows' cols').grid_ext (Shaped.resize rows' cols') rfl rfl
      fun row col hrow hcol => ?_
    rw [cell_resize _ hrow hcol, cell_resize s hrow hcol,
      cell_resize s (Nat.lt_of_lt_of_le hrow hrows) (Nat.lt_of_lt_of_le hcol hcols),
      Option.getD_some]
  have hresized : (s.resize rows cols).resize rows' cols' =
      { s.resize rows' cols' with grid := ((s.resize rows cols).resize rows' cols').grid } := rfl
  rw [hresized, hgrid]

/-! ## Scrolling -/

/-- A cell of a scrolled screen has the character from so many rows below, or a blank where there
was none. -/
theorem Shaped.cell_scrollUp (h : s.Shaped) (n : Nat) {row col : Nat} (hrow : row < s.rows)
    (hcol : col < s.cols) :
    (s.scrollUp n).cell row col = some ((s.cell (row + n) col).getD ' ') := by
  have hlength := h.length
  have hdropped : (s.grid.drop (min n s.rows)).length = s.rows - min n s.rows := by
    rw [List.length_drop, hlength]
  by_cases hlt : row + n < s.rows
  · have hn : min n s.rows = n := by omega
    obtain ⟨c, hc⟩ := h.exists_cell hlt hcol
    rw [hc, Option.getD_some, ← hc, cell, cell, Screen.scrollUp]
    dsimp only
    rw [List.getElem?_append_left (by omega), List.getElem?_drop, hn, Nat.add_comm]
  · rw [h.cell_eq_none (Nat.not_lt.1 hlt), cell, Screen.scrollUp]
    dsimp only
    rw [List.getElem?_append_right (by omega), List.getElem?_replicate_of_lt (by omega)]
    exact Row.getElem?_blank hcol

/-- Scrolling twice is scrolling by both numbers of rows. -/
theorem Shaped.scrollUp_scrollUp (h : s.Shaped) (m n : Nat) :
    (s.scrollUp m).scrollUp n = s.scrollUp (m + n) := by
  have hm := h.scrollUp m
  have hgrid : ((s.scrollUp m).scrollUp n).grid = (s.scrollUp (m + n)).grid := by
    refine (h.scrollUp (m + n)).grid_ext (hm.scrollUp n) rfl rfl fun row col hrow hcol => ?_
    rw [hm.cell_scrollUp n hrow hcol, h.cell_scrollUp (m + n) hrow hcol]
    by_cases hlt : row + n < s.rows
    · rw [h.cell_scrollUp m hlt hcol, Option.getD_some, Nat.add_assoc, Nat.add_comm n m]
    · have hle : s.rows ≤ row + n := Nat.not_lt.1 hlt
      rw [hm.cell_eq_none hle, h.cell_eq_none (by omega)]
  have hscrolled : (s.scrollUp m).scrollUp n =
      { s.scrollUp (m + n) with grid := ((s.scrollUp m).scrollUp n).grid } := rfl
  rw [hscrolled, hgrid]

/-- Sizes below the smallest one stand for it. A screen that changes its size keeps the rows at the
top that fit, each padded with spaces or cut to the new width, and all its other rows are blank.
Growing and going back to the old size changes nothing, going to a smaller size on the way to an
even smaller one neither, and scrolling twice is scrolling by both numbers of rows. -/
theorem resizing_keeps (h : s.Shaped) :
    (∀ rows cols,
      let t := s.resize rows cols
      t.rows = max rows 12 ∧ t.cols = max cols 40 ∧ t.grid.length = t.rows ∧
        (∀ i, i < min s.rows t.rows →
          t.grid[i]? = some ((s.rowAt i ++ List.replicate t.cols ' ').take t.cols)) ∧
        ∀ i, s.rows ≤ i → i < t.rows → t.grid[i]? = some (List.replicate t.cols ' ')) ∧
      (∀ rows cols, s.rows ≤ max rows 12 → s.cols ≤ max cols 40 →
        (s.resize rows cols).resize s.rows s.cols = s) ∧
      (∀ rows cols rows' cols', max rows' 12 ≤ max rows 12 → max cols' 40 ≤ max cols 40 →
        (s.resize rows cols).resize rows' cols' = s.resize rows' cols') ∧
      ∀ m n, (s.scrollUp m).scrollUp n = s.scrollUp (m + n) := by
  refine ⟨fun rows cols => ?_, fun rows cols hrows hcols => ?_,
    fun rows cols rows' cols' hrows hcols => s.resize_resize hrows hcols, h.scrollUp_scrollUp⟩
  · intro t
    refine ⟨rfl, rfl, (Shaped.resize rows cols).length, fun i hi => ?_, fun i hle hlt => ?_⟩
    · obtain ⟨hrow, hkept⟩ := Nat.lt_min.1 hi
      rw [s.getElem?_resize hkept, h.getElem?_eq_rowAt hrow, ← Row.fit_eq_take]
      rfl
    · rw [s.getElem?_resize hlt, List.getElem?_eq_none (h.length ▸ hle)]
      rfl
  · have hrows' : max s.rows minRows ≤ max rows minRows := by
      rw [Nat.max_eq_left h.minRows_le]
      exact hrows
    have hcols' : max s.cols minCols ≤ max cols minCols := by
      rw [Nat.max_eq_left h.minCols_le]
      exact hcols
    rw [s.resize_resize hrows' hcols', h.resize_self]

/-- A screen with a text in its first row and one in its last row. -/
def marked : Screen :=
  ((ofSize 13 41 []).setRow 0 (List.replicate 41 'x')).setRow 12 ['y']

/-- The smallest screen has no room for the last row, and none for the last cell of the first one;
a larger one has room for both. -/
theorem resizing_keeps_marked :
    marked.Shaped ∧
      (marked.resize 3 5).grid = List.replicate 40 'x' :: List.replicate 11 (Row.blank 40) ∧
      (marked.resize 20 41).resize 13 41 = marked ∧
      (marked.resize 20 41).resize 3 5 = marked.resize 3 5 ∧
      (marked.scrollUp 12).scrollUp 1 = marked.scrollUp 13 := by
  have hshaped : marked.Shaped := ((ofSize_shaped 13 41 []).setRow 0 _).setRow 12 _
  obtain ⟨-, hback, hsmaller, hscroll⟩ := resizing_keeps hshaped
  exact ⟨hshaped, by decide +kernel, hback 20 41 (by decide) (by decide),
    hsmaller 20 41 3 5 (by decide) (by decide), hscroll 12 1⟩

end Screen

end SimTerm

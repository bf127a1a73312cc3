import SimTerm.Settings
import SimTerm.Text.Blank

/-!
# The screen

A grid of characters: `rows` rows of `cols` characters each, never fewer than `minRows` and
`minCols`. A text put into a row is cut or padded with spaces to the width of the grid. Nothing is
seen of the grid until it is presented; `frames` are the grids presented so far, the latest first.
-/

namespace SimTerm

/-- A row of characters. -/
abbrev Row := List Char

/-- Rows from top to bottom. -/
abbrev Grid := List Row

namespace Row

/-- A row of spaces. -/
def blank (cols : Nat) : Row :=
  List.replicate cols ' '

/-- The text cut or padded to a width. -/
def fit (text : List Char) (cols : Nat) : Row :=
  text.take cols ++ blank (cols - text.length)

end Row

/-- A grid of text and what has been seen of it. -/
structure Screen where
  rows : Nat
  cols : Nat
  grid : Grid
  frames : List Grid

namespace Screen

/-- A blank grid at least as large as the smallest one; frames seen before are kept. -/
def ofSize (rows cols : Nat) (frames : List Grid) : Screen :=
  let rows := max rows minRows
  let cols := max cols minCols
  { rows, cols, grid := List.replicate rows (Row.blank cols), frames }

/-- Put a text into a row; a row that the grid does not have is left out. -/
def setRow (s : Screen) (row : Nat) (text : List Char) : Screen :=
  if row < s.rows then { s with grid := s.grid.set row (Row.fit text s.cols) } else s

/-- The characters of a row, all blank for a row that the grid does not have. -/
def rowAt (s : Screen) (row : Nat) : Row :=
  (s.grid[row]?).getD (Row.blank s.cols)

/-- Drop rows at the top and add as many blank ones at the bottom. -/
def scrollUp (s : Screen) (n : Nat) : Screen :=
  let n := min n s.rows
  { s with grid := s.grid.drop n ++ List.replicate n (Row.blank s.cols) }

/-- Make every row blank. -/
def clear (s : Screen) : Screen :=
  { s with grid := List.replicate s.rows (Row.blank s.cols) }

/-- Change the size. The rows at the top that fit are kept, cut or padded. -/
def resize (s : Screen) (rows cols : Nat) : Screen :=
  let rows := max rows minRows
  let cols := max cols minCols
  let kept := (s.grid.take rows).map (Row.fit · cols)
  { s with rows, cols, grid := kept ++ List.replicate (rows - kept.length) (Row.blank cols) }

/-- Let the grid be seen. -/
def present (s : Screen) : Screen :=
  { s with frames := s.grid :: s.frames }

/-- The grid seen last. -/
def shown (s : Screen) : Grid :=
  s.frames.head?.getD []

/-- The rows seen last that are not blank, without the blanks at their ends. -/
def shownText (s : Screen) : List (List Char) :=
  (s.shown.map Text.trimEnd).filter (· ≠ [])

end Screen

end SimTerm

import SimTerm.Text.Blank
import SimTerm.Text.Pieces

/-!
# A display driven by escape codes

A frame is shown by moving the cursor home, clearing the display and writing the rows without the
blanks at their ends. A frame equal to the one shown before is not written again. What is written
may be refused; the frame then counts as shown all the same.
-/

namespace SimTerm

/-- Moves the cursor home and clears the display. -/
def clearCode : List Char :=
  ['\x1b', '[', 'H', '\x1b', '[', '2', 'J']

/-- The text that shows a frame. -/
def renderFrame (rows : List (List Char)) : List Char :=
  clearCode ++ Text.joined '\n' (rows.map Text.trimEnd)

/-- A display, with the frame shown last and everything written to it. -/
structure Display where
  last : List (List Char) := []
  written : List Char := []

namespace Display

/-- What has to be written to show a frame. -/
def pending (d : Display) (rows : List (List Char)) : List Char :=
  if d.last = rows then [] else renderFrame rows

/-- Show a frame on a display that takes what is written, or refuses it. -/
def present (d : Display) (rows : List (List Char)) (refused : Bool) : Display :=
  { last := rows, written := if refused then d.written else d.written ++ d.pending rows }

end Display

end SimTerm

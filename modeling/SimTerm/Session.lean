import SimTerm.Editor
import SimTerm.History
import SimTerm.Screen

/-!
# The session

A session is what a user sees and edits: the working directory, the line being edited, the history
and the screen. Output goes to the row `outRow`, one row after the other; when the grid is full it
scrolls first. `outRow` may stand one row below the grid, and the scrolling is done by the next
output. The prompt is drawn on that row too, the input behind it and the caret over it.

What is printed is also collected by every open *capture*, so that the output of a command can be
told afterwards. The `log` lists what lines put on the screen and into the input, the latest first;
nothing reads it but the statements about what a line did.
-/

namespace SimTerm

/-- What a line may do to the screen and to the input. -/
inductive SessionEvent where
  | printed (line : String)
  /-- A text was put before the cursor. -/
  | pasted (text : String)
  /-- A text was shown in place of the input. -/
  | echoed (text : String)
  /-- The prompt row was drawn where the last row of output stood. -/
  | overdrawn (row : Row)
  /-- The screen was made blank. -/
  | wiped
deriving DecidableEq, Repr

/-- What a user sees and edits. -/
structure Session where
  cwd : String
  previousDir : Option String
  user : String
  host : String
  promptTail : String
  editor : Editor
  history : History
  /-- The row of the next output. -/
  outRow : Nat
  caretVisible : Bool
  running : Bool
  bootMode : Bool
  /-- A submitted line is being run. -/
  busy : Bool
  screen : Screen
  /-- What each open capture has collected, the innermost capture and the latest line first. -/
  captures : List (List String)
  log : List SessionEvent := []

/-- The characters of a text in rows of a width; the empty text has one empty row. -/
def wrapped (width : Nat) (cs : List Char) : List (List Char) :=
  if width = 0 ∨ cs.length ≤ width then [cs] else cs.take width :: wrapped width (cs.drop width)
termination_by cs.length
decreasing_by
  simp only [not_or, Nat.not_le] at *
  simp only [List.length_drop]
  omega

namespace Session

/-- A session that is not yet running, on a screen where these frames were seen before. -/
def ofSettings (s : Settings) (frames : List Grid) : Session :=
  { cwd := s.startDir, previousDir := none, user := s.user, host := s.host
    promptTail := s.promptTail, editor := {}, history := {}, outRow := 0, caretVisible := true
    running := false, bootMode := false, busy := false
    screen := Screen.ofSize s.rows s.cols frames, captures := [] }

/-! ## The working directory -/

/-- Go to a directory and remember the one left. -/
def changeDir (s : Session) (path : String) : Session :=
  { s with cwd := path, previousDir := some s.cwd }

/-- Go to the directory left last, or to the root. -/
def back (s : Session) : Session :=
  s.changeDir (s.previousDir.getD "/")

/-! ## Drawing -/

/-- Write down what happened. -/
def record (s : Session) (event : SessionEvent) : Session :=
  { s with log := event :: s.log }

/-- Let the grid be seen. -/
def render (s : Session) : Session :=
  { s with screen := s.screen.present }

/-- The prompt: user, host and directory, with `~` for the home directory itself. -/
def prompt (s : Session) : String :=
  let dir := if s.cwd = Path.home s.user then "~" else s.cwd
  s.user ++ "@" ++ s.host ++ ":" ++ dir ++ s.promptTail

/-- The row where the prompt stands. -/
def promptRow (s : Session) : Nat :=
  min s.outRow (s.screen.rows - 1)

/-- The input as far as there is room for it behind the prompt. -/
def shownInput (s : Session) : List Char :=
  s.editor.input.take (s.screen.cols - s.prompt.length)

/-- The column of the caret. -/
def caretColumn (s : Session) : Nat :=
  min (s.prompt.length + min s.editor.cursor s.shownInput.length) (s.screen.cols - 1)

/-- The prompt row: prompt, input, spaces, and the caret in its place. -/
def promptCells (s : Session) : Row :=
  (Row.fit (s.prompt.toList ++ s.shownInput) s.screen.cols).set s.caretColumn
    (if s.caretVisible then '|' else ' ')

/-- Draw the prompt row. If the next output would stand below the grid, the row is one of output. -/
def renderInput (s : Session) : Session :=
  let drawn := render { s with screen := s.screen.setRow s.promptRow s.promptCells }
  if s.outRow < s.screen.rows then drawn else drawn.record (.overdrawn s.promptCells)

/-- Scroll by one row if the next output would stand below the grid. -/
def ensureRow (s : Session) : Session :=
  if s.outRow < s.screen.rows then s
  else { s with screen := s.screen.scrollUp 1, outRow := s.screen.rows - 1 }

/-- Put a text on the next row of output. -/
def putRow (s : Session) (text : List Char) : Session :=
  let s := s.ensureRow
  { s with screen := s.screen.setRow s.outRow text, outRow := s.outRow + 1 }

/-! ## Output -/

/-- Print a line, on as many rows as it takes. -/
def print (s : Session) (text : String) : Session :=
  let s := record { s with captures := s.captures.map (text :: ·) } (.printed text)
  ((wrapped s.screen.cols text.toList).foldl putRow s).render

/-- Begin to collect what is printed. -/
def beginCapture (s : Session) : Session :=
  { s with captures := [] :: s.captures }

/-- End the capture begun last, and tell what it collected. -/
def endCapture (s : Session) : List String × Session :=
  match s.captures with
  | [] => ([], s)
  | c :: cs => (c.reverse, { s with captures := cs })

/-- Draw a new prompt on the next row of output. -/
def drawPrompt (s : Session) : Session :=
  let s := ensureRow { s with editor := s.editor.atPrompt }
  (render { s with screen := s.screen.setRow s.outRow s.prompt.toList }).renderInput

/-- Make the screen blank and begin at the top. -/
def clearScreen (s : Session) : Session :=
  record (render { s with screen := s.screen.clear, outRow := 0 }) .wiped

/-! ## Editing -/

/-- Let the editor do something and draw the prompt row. -/
def edit (s : Session) (change : Editor → Editor) : Session :=
  renderInput { s with editor := change s.editor }

/-- Insert a character that does not end the line. -/
def insert (s : Session) (c : Char) : Session :=
  if Editor.isBreak c then s else s.edit (·.put [c])

/-- Insert a text that is kept through the next prompt. -/
def paste (s : Session) (text : String) : Session :=
  (s.record (.pasted text)).edit (·.paste text.toList)

/-- Show a text as the input until the next prompt. -/
def echo (s : Session) (text : String) : Session :=
  (s.record (.echoed text)).edit fun _ => Editor.echo text.toList

/-- Remove the character before the cursor, if there is one. -/
def backspace (s : Session) : Session :=
  if s.editor.cursor = 0 then s else s.edit Editor.backspace

/-- Remove the character behind the cursor, if there is one. -/
def delete (s : Session) : Session :=
  if s.editor.cursor < s.editor.input.length then s.edit Editor.delete else s

/-- Move the cursor. -/
def moveCursor (s : Session) (delta : Int) : Session :=
  s.edit (·.move delta)

/-- Move the cursor to the start. -/
def home (s : Session) : Session :=
  s.edit Editor.home

/-- Move the cursor to the end. -/
def toEnd (s : Session) : Session :=
  s.edit Editor.toEnd

/-- Show the line that a step through the history led to, if it led to one. -/
def browse (s : Session) : Option String × History → Session
  | (some line, history) => edit { s with history } (·.replace line.toList)
  | (none, history) => { s with history }

/-- Go to the next older line of the history. -/
def historyUp (s : Session) : Session :=
  s.browse s.history.up

/-- Go to the next newer line of the history. -/
def historyDown (s : Session) : Session :=
  s.browse s.history.down

/-- Make the input a line of its own: it stays on the screen behind the prompt, and is kept in the
history. -/
def commit (s : Session) : String × Session :=
  let line := String.ofList s.editor.input
  let s := { s with caretVisible := true, editor := {} }
  let s := render
    { s with screen := s.screen.setRow s.promptRow (s.prompt.toList ++ line.toList) }
  let s := ensureRow { s with outRow := s.outRow + 1 }
  (line, { s with history := s.history.push line })

/-! ## Modes -/

/-- Run, with a new prompt. -/
def start (s : Session) : Session :=
  drawPrompt { s with running := true }

/-- Run no longer. -/
def stop (s : Session) : Session :=
  { s with running := false }

/-- Keys are taken while the session runs, shows no boot log and has no line in hand. -/
def acceptsInput (s : Session) : Bool :=
  s.running && !s.bootMode && !s.busy

/-- Stop and make the editor and the screen empty; the lines of the history are kept. -/
def resetHard (s : Session) : Session :=
  let s := render
    { s with running := false, editor := {}, history := s.history.leave, outRow := 0
             screen := s.screen.clear }
  s.record .wiped

/-- Show or hide the caret, in turns. -/
def blink (s : Session) : Session :=
  if s.running && !s.bootMode then renderInput { s with caretVisible := !s.caretVisible } else s

/-- Change the size of the screen. -/
def resize (s : Session) (rows cols : Nat) : Session :=
  render { s with screen := s.screen.resize rows cols }

end Session

end SimTerm

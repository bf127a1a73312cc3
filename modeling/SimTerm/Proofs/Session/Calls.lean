import SimTerm.Proofs.Session.Line

/-!
# Calls of a session

Everything that a program may ask of a session is a `Call`, and a session goes from one state to the
next by calls only. What a call does to the editor depends on the editor and the history alone,
never on the screen: `editor_perform`.
-/

namespace SimTerm.Session

/-- What a program may ask of a session. -/
inductive Call where
  | insert (c : Char)
  | paste (text : String)
  | echo (text : String)
  | backspace
  | delete
  | moveCursor (delta : Int)
  | home
  | toEnd
  | historyUp
  | historyDown
  | drawPrompt
  | commit
  | resetHard
  | start
  | stop
  | setBootMode (on : Bool)
  | setBusy (busy : Bool)
  | changeDir (path : String)
  | back
  | print (line : String)
  | beginCapture
  | endCapture
  | renderInput
  | clearScreen
  | blink
  | resize (rows cols : Nat)
deriving DecidableEq, Repr

/-- The session after a call; what a call tells besides is not of interest here. -/
def perform (s : Session) : Call → Session
  | .insert c => s.insert c
  | .paste text => s.paste text
  | .echo text => s.echo text
  | .backspace => s.backspace
  | .delete => s.delete
  | .moveCursor delta => s.moveCursor delta
  | .home => s.home
  | .toEnd => s.toEnd
  | .historyUp => s.historyUp
  | .historyDown => s.historyDown
  | .drawPrompt => s.drawPrompt
  | .commit => s.commit.2
  | .resetHard => s.resetHard
  | .start => s.start
  | .stop => s.stop
  | .setBootMode on => { s with bootMode := on }
  | .setBusy busy => { s with busy }
  | .changeDir path => s.changeDir path
  | .back => s.back
  | .print line => s.print line
  | .beginCapture => s.beginCapture
  | .endCapture => s.endCapture.2
  | .renderInput => s.renderInput
  | .clearScreen => s.clearScreen
  | .blink => s.blink
  | .resize rows cols => s.resize rows cols

/-- The session after some calls, one after the other. -/
def run (s : Session) (calls : List Call) : Session :=
  calls.foldl perform s

/-- The last call is made in the session that the calls before it left. -/
theorem run_concat (s : Session) (calls : List Call) (call : Call) :
    s.run (calls ++ [call]) = (s.run calls).perform call :=
  List.foldl_append

/-! ## The editor -/

/-- What the editor becomes when a step through the history led to a line, if it led to one. -/
def recalled (e : Editor) : Option String → Editor
  | none => e
  | some line => e.replace line.toList

/-- What a call makes of the editor. -/
def Call.edited (history : History) (e : Editor) : Call → Editor
  | .insert c => if Editor.isBreak c then e else e.put [c]
  | .paste text => e.paste text.toList
  | .echo text => Editor.echo text.toList
  | .backspace => if e.cursor = 0 then e else e.backspace
  | .delete => if e.cursor < e.input.length then e.delete else e
  | .moveCursor delta => e.move delta
  | .home => e.home
  | .toEnd => e.toEnd
  | .historyUp => recalled e history.up.1
  | .historyDown => recalled e history.down.1
  | .drawPrompt | .start => e.atPrompt
  | .commit | .resetHard => {}
  | _ => e

theorem editor_renderInput (s : Session) : s.renderInput.editor = s.editor := by
  rw [renderInput_eq]

/-- An edit of the input is made on the editor. -/
theorem editor_edit (s : Session) (change : Editor → Editor) :
    (s.edit change).editor = change s.editor :=
  editor_renderInput _

/-- A typed character goes into the input unless it is a line break. -/
theorem editor_insert (s : Session) (c : Char) :
    (s.insert c).editor = if Editor.isBreak c then s.editor else s.editor.put [c] := by
  unfold insert
  split
  · rfl
  · exact editor_edit _ _

/-- A backspace takes away the character before the cursor, if there is one. -/
theorem editor_backspace (s : Session) :
    s.backspace.editor = if s.editor.cursor = 0 then s.editor else s.editor.backspace := by
  unfold backspace
  split
  · rfl
  · exact editor_edit _ _

/-- A deletion takes away the character at the cursor, if there is one. -/
theorem editor_delete (s : Session) :
    s.delete.editor =
      if s.editor.cursor < s.editor.input.length then s.editor.delete else s.editor := by
  unfold delete
  split
  · exact editor_edit _ _
  · rfl

/-- A line from the history replaces the input; without one the input stays. -/
theorem editor_browse (s : Session) (step : Option String × History) :
    (s.browse step).editor = recalled s.editor step.1 := by
  obtain ⟨line?, history⟩ := step
  cases line? with
  | none => rfl
  | some line => exact editor_edit _ _

/-- Committing leaves an empty input. -/
theorem editor_commit (s : Session) : s.commit.2.editor = {} := by
  unfold commit
  dsimp only
  rw [ensureRow_eq]
  rfl

theorem editor_print (s : Session) (line : String) : (s.print line).editor = s.editor := by
  rw [print_eq, foldl_putRow_eq]
  rfl

theorem editor_blink (s : Session) : s.blink.editor = s.editor := by
  unfold blink
  split
  · exact editor_renderInput _
  · rfl

theorem editor_endCapture (s : Session) : s.endCapture.2.editor = s.editor := by
  unfold endCapture
  split <;> rfl

/-- A call changes the editor as if there were no screen. -/
theorem editor_perform (s : Session) (call : Call) :
    (s.perform call).editor = call.edited s.history s.editor := by
  cases call with
  | insert c => exact editor_insert s c
  | backspace => exact editor_backspace s
  | delete => exact editor_delete s
  | paste | echo | moveCursor | home | toEnd => exact editor_edit _ _
  | historyUp | historyDown => exact editor_browse _ _
  | drawPrompt | start => exact editor_drawPrompt _
  | commit => exact editor_commit s
  | print line => exact editor_print s line
  | renderInput => exact editor_renderInput s
  | blink => exact editor_blink s
  | endCapture => exact editor_endCapture s
  | resetHard | stop | setBootMode | setBusy | changeDir | back | beginCapture | clearScreen
    | resize => rfl

end SimTerm.Session

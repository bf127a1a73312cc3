import SimTerm.Commands
import SimTerm.Key

/-!
# The terminal

A terminal is a machine with a registry of commands. It takes key presses, runs the line that Enter
submits, and draws a new prompt. Keys are dropped while the session does not accept input, except
the one that reboots.
-/

namespace SimTerm

/-- A machine with commands. -/
structure Terminal where
  settings : Settings
  registry : Registry
  machine : Machine
  /-- The random addition to the pause before the next submitted line. -/
  jitter : Nat := 0

namespace Terminal

/-- How the default tree looks under these settings. -/
def treeOptions (s : Settings) : TreeOptions :=
  { user := s.user, bare := s.bareTree }

/-- A stopped terminal with the built-in commands, on what a storage holds. -/
def ofSettings (settings : Settings) (storage : Storage) (now : Millis) (clipboard : Clipboard)
    (boot : BootSequence) (frames : List Grid) (pauses : List Pause)
    (zone : Calendar.Zone := Calendar.Zone.utc) : Terminal :=
  { settings, registry := Commands.registry
    machine :=
      { session := Session.ofSettings settings frames
        files := FileSystem.open storage now (treeOptions settings)
        clipboard, pauses, boot, zone } }

/-- The session of the terminal. -/
def session (t : Terminal) : Session :=
  t.machine.session

/-- Change the session. -/
def onSession (t : Terminal) (change : Session → Session) : Terminal :=
  { t with machine := { t.machine with session := change t.machine.session } }

/-- Boot if the settings say so, and start. -/
def powerOn (t : Terminal) : Terminal :=
  let t := if t.settings.boot then { t with machine := t.machine.runBoot false } else t
  t.onSession Session.start

/-- Boot again. -/
def reboot (t : Terminal) : Terminal :=
  { t with machine := t.machine.reboot }

/-- The pause before a submitted line. -/
def delay (t : Terminal) : Nat :=
  t.settings.execDelay + t.jitter

/-- Commit the input, run it as a line, and draw a new prompt if the session still runs. -/
def submit (t : Terminal) : List Outcome × Terminal :=
  let (line, session) := t.session.commit
  let m := { t.machine with session := { session with busy := true } }
  let m := if t.delay = 0 then m else m.sleep (UInt64.ofNat t.delay)
  let (outcomes, e) := (t.registry.execute line).run { toMachine := m }
  let session := { e.session with busy := false }
  let session := if session.running then session.drawPrompt else session
  (outcomes, { t with machine := { e.toMachine with session } })

/-- What a key does to the line being edited. -/
def editKey (p : KeyPress) (s : Session) : Session :=
  match p.key with
  | .backspace => s.backspace
  | .delete => s.delete
  | .left => s.moveCursor (-1)
  | .right => s.moveCursor 1
  | .up => s.historyUp
  | .down => s.historyDown
  | .home => s.home
  | .end => s.toEnd
  | .enter => s
  | .char _ =>
    match p.printable? with
    | some c => s.insert c
    | none => s

/-- Take a key press. -/
def press (t : Terminal) (p : KeyPress) : Terminal :=
  if p.reboots then t.reboot
  else if !t.session.acceptsInput then t
  else if p.clearsScreen then t.onSession fun s => s.clearScreen.drawPrompt
  else if p.key = .enter then t.submit.2
  else t.onSession (editKey p)

/-- Press the keys of a text, one character after the other. -/
def type (t : Terminal) (text : String) : Terminal :=
  text.toList.foldl (fun t c => t.press (KeyPress.typed c)) t

/-- Type a line and submit it, if input is accepted. -/
def runLine (t : Terminal) (line : String) : List Outcome × Terminal :=
  if t.session.acceptsInput then (t.type line).submit else ([], t)

/-- Show or hide the caret, in turns. -/
def blink (t : Terminal) : Terminal :=
  t.onSession Session.blink

/-- Change the size of the screen, and draw the prompt row anew if the session runs. -/
def resize (t : Terminal) (rows cols : Nat) : Terminal :=
  t.onSession fun s =>
    let s := s.resize rows cols
    if s.running then s.renderInput else s

end Terminal

end SimTerm

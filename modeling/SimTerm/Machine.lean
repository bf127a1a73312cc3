import SimTerm.Calendar
import SimTerm.FileSystem
import SimTerm.Session

/-!
# The machine

Everything that outlives a command line: the session, the file system, the clipboard and the time
zone of the host, the boot sequence, and the pauses asked for so far. Nothing waits here; a pause is
written down with the number of frames seen before it, so that whoever shows the frames knows where
to wait.

A boot sequence prints lines, pauses, and lets the caret blink. Which steps it takes may depend on
whether the machine reboots and on the session that it starts with.
-/

namespace SimTerm

/-- The clipboard of the host. -/
inductive Clipboard where
  | holding (text : Option String)
  /-- The host does not let programs use it. -/
  | denied
deriving DecidableEq, Repr

/-- The failure of a clipboard that may not be used. -/
def Clipboard.deniedFailure : Failure :=
  .host "clipboard access denied"

/-- The text in the clipboard, if there is one. -/
def Clipboard.read : Clipboard → Except Failure (Option String)
  | .holding text => .ok text
  | .denied => .error deniedFailure

/-- The clipboard with another text in it. -/
def Clipboard.write (text : String) : Clipboard → Except Failure Clipboard
  | .holding _ => .ok (.holding (some text))
  | .denied => .error deniedFailure

/-- A pause, and how many frames were seen before it. -/
structure Pause where
  length : Millis
  frames : Nat
deriving DecidableEq, Repr

/-- What a boot sequence does next. -/
inductive BootStep where
  | print (line : String)
  | sleep (length : Millis)
  | blink
deriving DecidableEq, Repr

/-- The steps of a boot or reboot in a session. -/
abbrev BootSequence := Bool → Session → List BootStep

/-- No steps at all. -/
def BootSequence.silent : BootSequence :=
  fun _ _ => []

/-- Everything that outlives a command line. -/
structure Machine where
  session : Session
  files : FileSystem
  clipboard : Clipboard := .holding none
  pauses : List Pause := []
  boot : BootSequence := BootSequence.silent
  /-- The time zone of the host. -/
  zone : Calendar.Zone := Calendar.Zone.utc

namespace Machine

/-- Write down a pause. -/
def sleep (m : Machine) (length : Millis) : Machine :=
  { m with pauses := m.pauses ++ [⟨length, m.session.screen.frames.length⟩] }

/-- Take a step of a boot sequence. -/
def bootStep (m : Machine) : BootStep → Machine
  | .print line => { m with session := m.session.print line }
  | .sleep length => m.sleep length
  | .blink => { m with session := m.session.blink }

/-- Wipe the screen and take the steps of the boot sequence; the session is left stopped. -/
def runBoot (m : Machine) (reboot : Bool) : Machine :=
  let session := { m.session.resetHard with bootMode := true }
  let m := (m.boot reboot session).foldl bootStep { m with session }
  { m with session := { m.session with bootMode := false } }

/-- Stop, boot again, and start with a new prompt. -/
def reboot (m : Machine) : Machine :=
  let m := runBoot { m with session := m.session.stop } true
  { m with session := m.session.start }

end Machine

end SimTerm
